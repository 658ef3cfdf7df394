/-
  Shardlite.Replication.Bootstrap

  A follower bootstrapping a shard from its primary.  It asks the primary to freeze
  the shard, copies the main file chunk by chunk into a staging file, installs what
  it received, and then asks the primary to release the freeze; only that last
  answer says whether what was copied was ever a database.

  The primary is the node of `Shard.Snapshot` and moves on its own between any two
  of these steps.  Bytes are of any type `B`, `render` is how a main file holds its
  transactions, and `app` is what a transaction's frames do to a file.
-/
import Shardlite.Replication.Follower
import Shardlite.Shard.Snapshot

namespace Shardlite.Replication

open Shard

/-! ## Transfers -/

/-- What a snapshot transfer is for. -/
structure SnapshotId where
  shard : ShardId
  epoch : Nat
  lsn : Nat
  totalBytes : Nat
  deriving DecidableEq, Repr

/-- What a follower keeps of a transfer on disk: the bytes received, and whose they
    are with how many of them are known to be good. -/
structure Staging (B : Type) where
  received : Option (List B) := none
  progress : Option (SnapshotId × Nat) := none

namespace Staging

variable {B : Type} (s : Staging B)

/-- Where a transfer of `id` goes on: where it left off, if what is staged is of
    the same snapshot, and from the beginning otherwise. -/
def resumeAt (id : SnapshotId) : Nat :=
  match s.progress with
  | some (found, written) =>
    if found = id then min written ((s.received.map List.length).getD 0) else 0
  | none => 0

/-- `SnapshotTransfer::begin`. -/
def begin (id : SnapshotId) : Staging B :=
  ⟨some ((s.received.getD []).take (s.resumeAt id)), some (id, s.resumeAt id)⟩

/-- `write_chunk`, after `written` good bytes; a fault leaves that many bytes of the
    chunk behind and the progress where it was. -/
def writeChunk (id : SnapshotId) (written : Nat) (data : List B) :
    Option Nat → Option Nat × Staging B
  | none =>
    (some (written + data.length),
      ⟨some (s.received.getD [] ++ data), some (id, written + data.length)⟩)
  | some short => (none, { s with received := some (s.received.getD [] ++ data.take short) })

end Staging

/-- How installing the staged file ends. -/
inductive Install where
  /-- Copying, syncing or the integrity check failed; the old file is still there. -/
  | refused
  /-- The file was replaced, and then recording its position failed. -/
  | replaced
  | installed
  deriving DecidableEq, Repr

namespace Copy

variable {B : Type}

/-- `install_snapshot`: the file first, its position after it. -/
def install (c : Copy (List B)) (id : SnapshotId) (image : List B) : Install → Copy (List B)
  | .refused => c
  | .replaced => { c with image }
  | .installed => c.installSnapshot id.epoch id.lsn image

end Copy

/-! ## The two nodes -/

inductive Delivery where
  | answered
  /-- It was served and the answer did not arrive. -/
  | replyLost
  | requestLost
  deriving DecidableEq, Repr

/-- What the follower learns of the release of its freeze. -/
inductive EndReport where
  | valid
  | invalidated
  /-- The primary could not look at the shard. -/
  | failed
  | lost
  deriving DecidableEq, Repr

inductive Phase where
  | idle
  | copying (id : SnapshotId) (written : Nat)
  /-- The transfer is over and the freeze is to be released; `replaced` says whether
      the shard's file is no longer the one it was. -/
  | ending (replaced : Bool)
  deriving DecidableEq, Repr

/-- A bootstrap that is over: the copy before and after it, and what its end said. -/
structure Concluded (B : Type) where
  before : Copy (List B)
  after : Copy (List B)
  report : EndReport

/-- The parameters of a run; `render` is the main file of a state. -/
structure BootstrapConfig (T B : Type) where
  ctx : ThreadCtx T
  shard : ShardId
  render : List T → List B
  app : List B → T → List B

/-- The primary, the follower, and a record of what the follower did. -/
structure BootstrapNet (T B : Type) where
  primary : SnapshotNode T
  copy : Copy (List B)
  staging : Staging B := {}
  phase : Phase := .idle
  /-- The connection of the bootstrap in progress. -/
  conn : ClientId := 0
  /-- The copy as the bootstrap in progress found it. -/
  before : Copy (List B)
  /-- Whether the file is one whose snapshot was not confirmed. -/
  rejected : Bool := false
  concluded : List (Concluded B) := []
  /-- For each batch of frames applied, whether the file under it was rejected. -/
  applied : List Bool := []

inductive BootstrapAct (T : Type) where
  /-- Anything the primary does for others. -/
  | primary (act : SnapshotAct T)
  /-- `staged` says whether the staging files can be opened. -/
  | begin (conn : ClientId) (sized staged : Bool) (delivery : Delivery) (env : Env)
  | chunk (len : Nat) (delivery : Delivery) (fault : Option Nat)
  | finish (outcome : Install)
  | release (delivery : Delivery) (env : Env)
  /-- The follower's process dies and starts again. -/
  | crash
  /-- Frames the follower was served. -/
  | frames (epoch : Nat) (txns : List (StreamTxn T))

end Shardlite.Replication

namespace Shardlite.Shard

variable {T : Type}

/-- The connection an action is performed for. -/
def SnapshotAct.client? : SnapshotAct T → Option ClientId
  | .snapshotBegin client _ _ _ => some client
  | .giveUp client _ _ => some client
  | .snapshotEnd client _ _ => some client
  | .hangUp client => some client
  | .release client _ _ => some client
  | _ => none

namespace SnapshotNode

variable (ctx : ThreadCtx T) (n : SnapshotNode T) (client : ClientId) (shard : ShardId)
  (env : Env)

/-- The position a `SnapshotBegin` is answered with. -/
def beginReply (sized : Bool) : Option (Nat × Nat) :=
  if n.Serves client ∧ sized then (n.writer.beginSnapshot ctx shard env).1.toOption else none

/-- What a `SnapshotEnd` is answered with: whether the snapshot is valid. -/
def endReply : Option Bool :=
  if n.Serves client then (n.writer.endSnapshot shard env).1.toOption else none

end SnapshotNode

end Shardlite.Shard

namespace Shardlite.Replication

open Shard

namespace BootstrapNet

variable {T B : Type} (cfg : BootstrapConfig T B) (w : BootstrapNet T B)

def mainFile : List B := cfg.render (w.primary.writer.files cfg.shard).main

/-- The primary serves somebody else; nobody else uses the follower's connection. -/
def primaryStep (act : SnapshotAct T) : BootstrapNet T B :=
  if w.phase ≠ .idle ∧ act.client? = some w.conn then w
  else { w with primary := w.primary.step cfg.ctx act }

/-- Ask for a snapshot and open the staging files. -/
def beginStep (conn : ClientId) (sized staged : Bool) (delivery : Delivery) (env : Env) :
    BootstrapNet T B :=
  if w.phase ≠ .idle ∨ delivery = .requestLost then w
  else
    let reply := w.primary.beginReply cfg.ctx conn cfg.shard env sized
    let w := { w with primary := w.primary.snapshotBegin cfg.ctx conn cfg.shard env sized }
    match reply, delivery with
    | some (epoch, lsn), .answered =>
      let w := { w with conn, before := w.copy }
      if staged then
        let id : SnapshotId := ⟨cfg.shard, epoch, lsn, (w.mainFile cfg).length⟩
        { w with staging := w.staging.begin id, phase := .copying id (w.staging.resumeAt id) }
      else { w with phase := .ending false }
    | _, _ => w

/-- Fetch the next chunk and stage it. -/
def chunkStep (len : Nat) (delivery : Delivery) (fault : Option Nat) : BootstrapNet T B :=
  match w.phase with
  | .copying id written =>
    if written < id.totalBytes then
      let data := ((w.mainFile cfg).drop written).take len
      if delivery = .answered ∧ data ≠ [] then
        match w.staging.writeChunk id written data fault with
        | (some written, staging) => { w with staging, phase := .copying id written }
        | (none, staging) => { w with staging, phase := .ending false }
      else { w with phase := .ending false }
    else w
  | _ => w

/-- `SnapshotTransfer::finish`; nothing staged is kept, whatever the outcome. -/
def finishStep (outcome : Install) : BootstrapNet T B :=
  match w.phase with
  | .copying id written =>
    if id.totalBytes ≤ written then
      { w with
        copy := w.copy.install id (w.staging.received.getD []) outcome
        staging := {}
        phase := .ending (outcome ≠ .refused) }
    else w
  | _ => w

/-- The transfer is over for the follower. -/
def conclude (report : EndReport) : BootstrapNet T B :=
  match w.phase with
  | .idle => w
  | .copying _ _ =>
    { w with phase := .idle, concluded := ⟨w.before, w.copy, report⟩ :: w.concluded }
  | .ending replaced =>
    { w with
      phase := .idle
      concluded := ⟨w.before, w.copy, report⟩ :: w.concluded
      rejected := if replaced then report ≠ .valid else w.rejected }

/-- Release the freeze, whatever the transfer came to. -/
def endStep (delivery : Delivery) (env : Env) : BootstrapNet T B :=
  match w.phase, delivery with
  | .ending _, .requestLost => w.conclude .lost
  | .ending _, .replyLost =>
    { w.conclude .lost with primary := w.primary.snapshotEnd w.conn cfg.shard env }
  | .ending _, .answered =>
    let report :=
      match w.primary.endReply w.conn cfg.shard env with
      | some true => .valid
      | some false => .invalidated
      | none => .failed
    { w.conclude report with primary := w.primary.snapshotEnd w.conn cfg.shard env }
  | _, _ => w

/-- Frames are applied between transfers only. -/
def framesStep (epoch : Nat) (txns : List (StreamTxn T)) : BootstrapNet T B :=
  if w.phase = .idle then
    match w.copy.apply cfg.app epoch txns with
    | .error _ => w
    | .ok copy => { w with copy, applied := w.rejected :: w.applied }
  else w

def step (w : BootstrapNet T B) : BootstrapAct T → BootstrapNet T B
  | .primary act => w.primaryStep cfg act
  | .begin conn sized staged delivery env => w.beginStep cfg conn sized staged delivery env
  | .chunk len delivery fault => w.chunkStep cfg len delivery fault
  | .finish outcome => w.finishStep outcome
  | .release delivery env => w.endStep cfg delivery env
  | .crash => w.conclude .lost
  | .frames epoch txns => w.framesStep cfg epoch txns

end BootstrapNet

end Shardlite.Replication
