/-
  Shardlite.Shard.Snapshot

  Freezing a shard's main file while a client copies it.  A writer thread keeps
  the shards it has open in an LRU cache, and the freeze is two flags in a shard's
  entry: while the hold is set nothing checkpoints, and a hold that had to be
  broken is remembered as an invalidated snapshot.  Connections remember which
  shards they froze, so that a client that disappears does not leave its hold
  behind.

  Prepared cross-shard transactions do not appear; everything else a writer thread
  does with a shard's entry does.
-/
import Shardlite.Replication.Stream
import Shardlite.Shard.Lru
import Shardlite.Storage.Checkpoint
import Shardlite.Lib.Machine

namespace Shardlite.Shard

open Storage Replication Function

/-! ## The writer thread -/

/-- A shard's writer connection and what goes with it. -/
structure OpenShard where
  checkpointer : Checkpointer := {}
  snapshotHold : Bool := false
  snapshotInvalidated : Bool := false
  deriving DecidableEq

/-- The part of a writer thread's context that never changes. -/
structure ThreadCtx (T : Type) where
  checkpoint : CheckpointConfig
  retention : Retention T
  snapshotHoldMaxWal : Nat

/-- A writer thread with the shards it serves.  Captures are kept by path, so they
    survive the entry of their shard. -/
structure Writer (T : Type) where
  lru : Lru OpenShard
  files : ShardId → ShardFile T
  captures : ShardId → WalCapture T
  positions : Positions

/-- What a job meets outside the model. -/
structure Env where
  /-- Whether this node owns the shard's file. -/
  mayOpen : Except Error Unit := .ok ()
  opens : Except Error Unit := .ok ()
  /-- Whether a connection the job closes is the last one on its file. -/
  last : Bool := true
  gate : Except Error Unit := .ok ()
  sink : SinkAnswer := .accepts
  /-- How waiting for a quorum ends. -/
  quorum : Except Error Unit := .ok ()
  /-- What the sink, or the capture's limit, says when shipping fails. -/
  refusal : Error := .writerBusy
  walBytes : Nat := 0
  /-- What becomes of the job's checkpoints. -/
  attempts : Attempt × Attempt := (.runs, .runs)

namespace Writer

variable {T : Type} (ctx : ThreadCtx T) (w : Writer T) (shard : ShardId) (env : Env)

def setEntry (entry : OpenShard) : Writer T := { w with lru := w.lru.set shard entry }

def setFile (f : ShardFile T) : Writer T := { w with files := update w.files shard f }

/-- The shards a lookup of `shard` would push out of the cache. -/
def victims : List ShardId :=
  match env.mayOpen with
  | .error _ => []
  | .ok _ => (w.lru.getOrOpen shard (env.opens.map fun _ => {})).victims

/-- Close the connections of the shards in `victims`. -/
def closeAll (victims : List ShardId) : Writer T :=
  { w with files := fun s => if s ∈ victims then (w.files s).close env.last else w.files s }

/-- The shard's entry, opened if need be; colder shards are closed to make room. -/
def ensureShard : Except Error OpenShard × Writer T :=
  match env.mayOpen with
  | .error e => (.error e, w)
  | .ok _ =>
    let found := w.lru.getOrOpen shard (env.opens.map fun _ => {})
    (found.value, { w.closeAll env found.victims with lru := found.lru })

/-- A transaction commits, and the capture sees its frames. -/
def commit (txn : T) : Writer T :=
  { w.setFile shard ((w.files shard).commit txn) with
    captures := update w.captures shard
      ((w.captures shard).emitCommit ctx.retention txn) }

/-- Commit what a batch changed, which may be nothing. -/
def commitSome : Option T → Writer T
  | none => w
  | some txn => w.commit ctx shard txn

/-- Hand the shard's committed frames to the sink. -/
def drain : Except Error (Option Nat) × Writer T :=
  let r := drainCapture ctx.retention (w.captures shard) w.positions shard env.sink
  let w := { w with captures := update w.captures shard r.capture, positions := r.positions }
  match r.shipped with
  | .nothing => (.ok none, w)
  | .upTo lsn => (.ok (some lsn), w)
  | .refused => (.error env.refusal, w)
  | .captureOverflow => (.error env.refusal, w)

/-- Let the shard's checkpointer do what is due after a batch. -/
def afterBatch (entry : OpenShard) : Writer T :=
  let (checkpointer, f) :=
    entry.checkpointer.afterBatch ctx.checkpoint (w.files shard) env.walBytes env.attempts
  (w.setEntry shard { entry with checkpointer }).setFile shard f

/-- Checkpointing between transactions, and never while a copy is in flight,
    unless the log has grown past what a hold is worth. -/
def settle (entry : OpenShard) : Writer T :=
  if entry.snapshotHold then
    if ctx.snapshotHoldMaxWal ≤ env.walBytes then
      w.afterBatch ctx shard env { entry with snapshotHold := false, snapshotInvalidated := true }
    else w
  else w.afterBatch ctx shard env entry

/-- Apply a batch of requests; `batch` is what their transaction changes, or why
    it was aborted. -/
def applyShardBatch (batch : Except Error (Option T)) : Writer T :=
  match w.ensureShard shard env with
  | (.error _, w) => w
  | (.ok entry, w) =>
    match env.gate, batch with
    | .error _, _ => w
    | .ok _, .error _ => w
    | .ok _, .ok txn =>
      match (w.commitSome ctx shard txn).drain ctx shard env with
      | (.error _, w) => w
      | (.ok highest, w) =>
        match highest, env.quorum with
        | some _, .error _ => w
        | _, _ => w.settle ctx shard env entry

/-- Freeze a shard's main file at a known position: its epoch and LSN. -/
def beginSnapshot : Except Error (Nat × Nat) × Writer T :=
  match w.ensureShard shard env with
  | (.error e, w) => (.error e, w)
  | (.ok entry, w) =>
    match w.drain ctx shard env with
    | (.error e, w) => (.error e, w)
    | (.ok _, w) =>
      match (w.files shard).walCheckpoint .truncate env.attempts.1 with
      | (none, _) => (.error env.refusal, w)
      | (some _, f) =>
        -- Nothing is asked of the row: a busy checkpoint counts as done.
        let entry := { entry with snapshotHold := true, snapshotInvalidated := false }
        (.ok (w.positions.epoch, w.positions.lastAllocated shard),
          (w.setEntry shard entry).setFile shard f)

/-- Release the freeze; `false` if it had to be broken. -/
def endSnapshot : Except Error Bool × Writer T :=
  match w.ensureShard shard env with
  | (.error e, w) => (.error e, w)
  | (.ok entry, w) =>
    (.ok (!entry.snapshotInvalidated), w.setEntry shard { entry with snapshotHold := false })

/-- A checkpoint on request; a frozen shard refuses it. -/
def checkpointShard : Except Error CheckpointRow × Writer T :=
  match w.ensureShard shard env with
  | (.error e, w) => (.error e, w)
  | (.ok entry, w) =>
    if entry.snapshotHold then
      (.error (.unsupported (shardName shard ++
        " is frozen for a snapshot; checkpointing is suspended for the duration")), w)
    else
      match (w.files shard).walCheckpoint .truncate env.attempts.1 with
      | (none, _) => (.error env.refusal, w)
      | (some row, f) => (.ok row, w.setFile shard f)

/-- Rebuild a shard; `rebuilt` is the transaction that rewrites its pages. -/
def vacuumShard (rebuilt : Except Error T) : Except Error Unit × Writer T :=
  match w.ensureShard shard env with
  | (.error e, w) => (.error e, w)
  | (.ok entry, w) =>
    if entry.snapshotHold then
      (.error (.unsupported (shardName shard ++
        " is frozen for a snapshot; VACUUM would rewrite the file being copied")), w)
    else
      match rebuilt with
      | .error e => (.error e, w)
      | .ok txn =>
        let w := w.commit ctx shard txn
        match (w.files shard).walCheckpoint .truncate env.attempts.1 with
        | (none, _) => (.error env.refusal, w)
        | (some _, f) =>
          let (shipped, w) := (w.setFile shard f).drain ctx shard env
          (shipped.map fun _ => (), w)

/-- Advance the schema by a transaction of its own, or only read its version. -/
def schemaOp (ddl : Option (Except Error T)) : Except Error Unit × Writer T :=
  match w.ensureShard shard env with
  | (.error e, w) => (.error e, w)
  | (.ok _, w) =>
    match ddl, env.gate with
    | none, _ => (.ok (), w)
    | some _, .error e => (.error e, w)
    | some (.error e), .ok _ => (.error e, w)
    | some (.ok txn), .ok _ =>
      let (shipped, w) := (w.commit ctx shard txn).drain ctx shard env
      (shipped.map fun _ => (), w)

/-- Drop the shard's entry, which closes its connection. -/
def quiesce (last : Bool) : Writer T :=
  match w.lru.peek shard with
  | none => w
  | some _ =>
    { w.setFile shard ((w.files shard).close last) with lru := w.lru.remove shard }

end Writer

/-! ## Clients -/

abbrev ClientId := Nat

/-- A follower's connection. -/
structure Conn where
  /-- The shards this connection froze and did not see released. -/
  held : List ShardId := []
  /-- Shards just frozen whose file could not be sized: the freeze is to go again. -/
  unsized : List ShardId := []
  closed : Bool := false

/-- A snapshot a client was told the position of, and how often the main file had
    been written to at that time. -/
structure Begun where
  client : ClientId
  shard : ShardId
  epoch : Nat
  lsn : Nat
  writes : Nat
  deriving DecidableEq

/-- A snapshot whose end was reported valid, with the stream's epoch and the
    shard's file at that time. -/
structure Ended (T : Type) where
  begun : Begun
  epoch : Nat
  file : ShardFile T

/-- The node: its writer thread, its connections, and a record of the snapshots
    in progress and of those reported valid. -/
structure SnapshotNode (T : Type) where
  writer : Writer T
  conns : ClientId → Conn := fun _ => {}
  begun : List Begun := []
  ended : List (Ended T) := []

/-- The jobs of the writer, and the requests of readers and followers. -/
inductive SnapshotAct (T : Type) where
  | batch (shard : ShardId) (batch : Except Error (Option T)) (env : Env)
  | ensureOpen (shard : ShardId) (env : Env)
  | checkpoint (shard : ShardId) (env : Env)
  | vacuum (shard : ShardId) (rebuilt : Except Error T) (env : Env)
  | schema (shard : ShardId) (ddl : Option (Except Error T)) (env : Env)
  | quiesce (shard : ShardId) (last : Bool)
  | readBegin (shard : ShardId)
  | readEnd (shard : ShardId) (mark : Nat)
  /-- `SnapshotBegin`, and whether the file can then be sized. -/
  | snapshotBegin (client : ClientId) (shard : ShardId) (sized : Bool) (env : Env)
  | giveUp (client : ClientId) (shard : ShardId) (env : Env)
  | snapshotEnd (client : ClientId) (shard : ShardId) (env : Env)
  | hangUp (client : ClientId)
  /-- A connection that ended releases one of the freezes it left. -/
  | release (client : ClientId) (shard : ShardId) (env : Env)

namespace SnapshotNode

variable {T : Type} (ctx : ThreadCtx T) (n : SnapshotNode T) (client : ClientId)
  (shard : ShardId) (env : Env)

def setConn (c : Conn) : SnapshotNode T := { n with conns := update n.conns client c }

def Serves : Prop := (n.conns client).closed = false ∧ (n.conns client).unsized = []

instance : Decidable (n.Serves client) := inferInstanceAs (Decidable (_ ∧ _))

/-- Freeze the shard and answer with its position. -/
def snapshotBegin (sized : Bool) : SnapshotNode T :=
  if n.Serves client then
    match n.writer.beginSnapshot ctx shard env with
    | (.error _, writer) => { n with writer }
    | (.ok (epoch, lsn), writer) =>
      let c := n.conns client
      let n := { n with writer }
      if sized then
        let b : Begun := ⟨client, shard, epoch, lsn, (writer.files shard).writes⟩
        { n.setConn client { c with held := shard :: c.held.filter (· ≠ shard) } with
          begun := b :: n.begun.filter fun b => ¬(b.client = client ∧ b.shard = shard) }
      else n.setConn client { c with unsized := [shard] }
  else n

/-- A freeze whose file could not be sized is released. -/
def giveUp : SnapshotNode T :=
  let c := n.conns client
  if shard ∈ c.unsized then
    { n.setConn client { c with unsized := [] } with
      writer := (n.writer.endSnapshot shard env).2 }
  else n

/-- Release the freeze and say whether the copy is valid. -/
def snapshotEnd : SnapshotNode T :=
  if n.Serves client then
    match n.writer.endSnapshot shard env with
    | (.error _, writer) => { n with writer }
    | (.ok valid, writer) =>
      let c := n.conns client
      let mine := fun b : Begun => b.client = client ∧ b.shard = shard
      let n := { n with writer, begun := n.begun.filter fun b => ¬mine b,
                        ended := if valid then
                            ((n.begun.filter mine).map fun b =>
                              ⟨b, writer.positions.epoch, writer.files shard⟩) ++ n.ended
                          else n.ended }
      -- Only a response of `Ok` takes the shard off the connection's list.
      if valid then n.setConn client { c with held := c.held.filter (· ≠ shard) } else n
  else n

def hangUp : SnapshotNode T :=
  { n.setConn client { n.conns client with closed := true } with
    begun := n.begun.filter (·.client ≠ client) }

/-- What a closed connection held is released. -/
def release : SnapshotNode T :=
  let c := n.conns client
  if c.closed ∧ shard ∈ c.held then
    { n.setConn client { c with held := c.held.filter (· ≠ shard) } with
      writer := (n.writer.endSnapshot shard env).2 }
  else n

def step (n : SnapshotNode T) : SnapshotAct T → SnapshotNode T
  | .batch shard batch env => { n with writer := n.writer.applyShardBatch ctx shard env batch }
  | .ensureOpen shard env => { n with writer := (n.writer.ensureShard shard env).2 }
  | .checkpoint shard env => { n with writer := (n.writer.checkpointShard shard env).2 }
  | .vacuum shard rebuilt env =>
    { n with writer := (n.writer.vacuumShard ctx shard env rebuilt).2 }
  | .schema shard ddl env => { n with writer := (n.writer.schemaOp ctx shard env ddl).2 }
  | .quiesce shard last => { n with writer := n.writer.quiesce shard last }
  | .readBegin shard =>
    { n with writer := n.writer.setFile shard (n.writer.files shard).readBegin }
  | .readEnd shard mark =>
    { n with writer := n.writer.setFile shard ((n.writer.files shard).readEnd mark) }
  | .snapshotBegin client shard sized env => n.snapshotBegin ctx client shard env sized
  | .giveUp client shard env => n.giveUp client shard env
  | .snapshotEnd client shard env => n.snapshotEnd client shard env
  | .hangUp client => n.hangUp client
  | .release client shard env => n.release client shard env

end SnapshotNode

end Shardlite.Shard
