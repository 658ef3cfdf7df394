/-
  Shardlite.Shard.Atomic

  Writes that touch several shards.  Every shard prepares, holding its
  transaction open, before any shard commits; between the two phases the decision
  goes to a record file.  SQLite forgets a transaction that is open when the
  process dies, so recovery applies a decided record again wherever the shard's
  marker table does not show its id.

  `history` and `applied` are history: every transaction started, and which
  transactions each shard's committed file has had applied.  A record remembers,
  for the proofs only, which transaction wrote it.
-/
import Shardlite.Storage.Statement
import Shardlite.Lib.OrdMap
import Shardlite.Lib.Machine

namespace Shardlite.Shard

open Storage Function

/-! ## The record file -/

/-- The only decision that is recorded. -/
inductive Decision where
  | commit
  deriving DecidableEq, Repr

/-- A record of the coordinator's log. -/
structure TxnRecord where
  id : Nat
  /-- Participants with the texts of their statements. -/
  participants : List (ShardId × List String)
  ddl : Bool
  decision : Option Decision
  deriving DecidableEq, Repr

namespace TxnRecord

def statementsFor (r : TxnRecord) (shard : ShardId) : Option (List Statement) :=
  (r.participants.find? (·.1 = shard)).map fun p => p.2.map .new

def shards (r : TxnRecord) : List ShardId := r.participants.map Prod.fst

end TxnRecord

/-- The next id to allocate, above every id in the record files. -/
def nextIdAfterRecovery {V : Type} (records : OrdMap Nat V) : Nat :=
  records.keys.foldl max 0 + 1

/-! ## One shard -/

/-- A committed database file, or the state an open transaction would commit. -/
structure Image (D : Type) where
  db : D
  /-- `PRAGMA user_version`. -/
  version : Nat
  /-- Ids in the marker table; `none` when the table does not exist. -/
  markers : Option (List Nat)

namespace Image

variable {D : Type} (sq : Sqlite D) (img : Image D)

/-- The shard has the marker of the transaction. -/
def hasApplied (id : Nat) : Bool := id ∈ img.markers.getD []

/-- `INSERT OR IGNORE` of a marker into an existing table. -/
def mark (id : Nat) : Image D :=
  { img with markers := img.markers.map fun ids => if id ∈ ids then ids else id :: ids }

/-- Run the statements in a new transaction, with the marker, and leave it open. -/
def prepareGroup (id : Nat) (statements : List Statement) (ddl : Bool) : Option (Image D) := do
  let db ← sq.runAll img.db statements
  let table : Image D :=
    { db, version := if ddl then img.version + 1 else img.version
      markers := some (img.markers.getD []) }
  return table.mark id

def applyAtomicGroup (statements : List Statement) : Option (Image D) := do
  let db ← sq.runAll img.db statements
  return { img with db }

/-- A schema change and its version, in one transaction. -/
def schemaOp (sql : String) : Option (Image D) := do
  let db ← sq.batch img.db sql
  return { img with db, version := img.version + 1 }

/-- What `run_atomic` does with a single participant. -/
def applyAlone (statements : List Statement) (ddl : Bool) : Option (Image D) :=
  if ddl then (statements.head?.map (·.sql)).bind (img.schemaOp sq)
  else img.applyAtomicGroup sq statements

end Image

/-! ## The node -/

/-- The shards of a transaction with their statements. -/
abbrev Participants := List (ShardId × List Statement)

/-- Ascending shard order, without shards that have nothing to do. -/
def normalized (ps : Participants) : Participants :=
  (ps.insertionSort fun p q => p.1 ≤ q.1).filter fun p => ¬ p.2.isEmpty

/-- How far a transaction with several participants has come. -/
inductive TxnStage where
  | preparing (todo : Participants)
  | recording
  | committing (todo : List ShardId) (failed : Bool)
  | removing
  | aborting (todo : List ShardId)

/-- The transaction that `run_atomic` is at. -/
structure InFlight where
  tag : Nat
  id : Nat
  participants : Participants
  ddl : Bool
  stage : TxnStage

def InFlight.shards (f : InFlight) : List ShardId := f.participants.map Prod.fst

/-- The record carries the texts, not the parameters. -/
def InFlight.record (f : InFlight) : TxnRecord where
  id := f.id
  participants := f.participants.map fun p => (p.1, p.2.map (·.sql))
  ddl := f.ddl
  decision := some .commit

structure Logged where
  tag : Nat
  record : TxnRecord

inductive Phase where
  | down
  /-- Resolving `current`, with these shards of it and these records still to do. -/
  | recovering (current : Logged) (shards : List ShardId) (rest : List Logged)
  /-- `shard` was applied again and its marker is not written yet. -/
  | marking (current : Logged) (shard : ShardId) (shards : List ShardId) (rest : List Logged)
  | serving (txn : Option InFlight)

structure Txn where
  tag : Nat
  shards : List ShardId
  deriving DecidableEq

/-- Shards, log and process; `history` and `applied` are history. -/
structure AtomicNode (D : Type) where
  images : ShardId → Image D
  parked : ShardId → Option (Image D)
  records : OrdMap Nat Logged
  nextTxn : Nat
  phase : Phase
  history : List Txn
  applied : ShardId → List Nat

/-- What the writer answers to a commit decision. -/
inductive CommitAnswer where
  /-- The queue is full: the decision never reaches the writer. -/
  | refused
  /-- `COMMIT` fails: nothing commits what it may leave open, and while it is open
      the writer refuses other jobs. -/
  | lost
  /-- The decision is carried out if the write gate is open, and rolled back if
      it is closed.  Shipping the frames afterwards may fail and be reported. -/
  | decided (gateOpen shipped : Bool)
  deriving DecidableEq

/-- Steps, each with what the environment answers: whether the writer carries a job
    out (it admits it, the gate is open, and SQLite does not refuse the COMMIT, as a
    deferred constraint makes it), whether a file operation succeeds, whether a read
    succeeds. -/
inductive AtomicAct where
  | write (shard : ShardId) (statements : List Statement) (admitted : Bool)
  | start (participants : Participants) (ddl : Bool) (admitted : Bool)
  | prepareNext (admitted : Bool)
  | putRecord (ok : Bool)
  | commitNext (answer : CommitAnswer)
  | removeRecord (ok : Bool)
  | abortNext (admitted : Bool)
  | crash
  | restart
  | recoverShard (readable admitted : Bool)
  | recoverMark (admitted : Bool)
  | recoverRemove (ok : Bool)

/-- The phase that begins to resolve these records. -/
def Phase.resolve : List Logged → Phase
  | [] => .serving none
  | r :: rest =>
    match r.record.decision with
    | none => .recovering r [] rest
    | some .commit => .recovering r r.record.shards rest

namespace AtomicNode

variable {D : Type}

/-- A first start, every shard with the same contents. -/
def init (db : D) : AtomicNode D where
  images _ := ⟨db, 0, none⟩
  parked _ := none
  records := .empty
  nextTxn := 1
  phase := .serving none
  history := []
  applied _ := []

def setImage (w : AtomicNode D) (s : ShardId) (img : Image D) : AtomicNode D :=
  { w with images := update w.images s img }

def park (w : AtomicNode D) (s : ShardId) (img : Option (Image D)) : AtomicNode D :=
  { w with parked := update w.parked s img }

@[simp] theorem images_setImage (w : AtomicNode D) (s : ShardId) (img : Image D) :
    (w.setImage s img).images = update w.images s img := rfl

@[simp] theorem parked_park (w : AtomicNode D) (s : ShardId) (img : Option (Image D)) :
    (w.park s img).parked = update w.parked s img := rfl

/-- The file of `s` now has transaction `tag` applied. -/
def apply (w : AtomicNode D) (s : ShardId) (tag : Nat) (img : Image D) : AtomicNode D :=
  { w.setImage s img with applied := update w.applied s (tag :: w.applied s) }

/-- The process is gone, and with it every open transaction. -/
def crashed (w : AtomicNode D) : AtomicNode D :=
  { w with parked := fun _ => none, phase := .down }

def stage (w : AtomicNode D) (f : InFlight) (stage : TxnStage) : AtomicNode D :=
  { w with phase := .serving (some { f with stage }) }

def idle (w : AtomicNode D) : AtomicNode D := { w with phase := .serving none }

variable (sq : Sqlite D) (w : AtomicNode D)

/-- `run_atomic` up to its first prepare. -/
def startTxn (ps : Participants) (ddl admitted : Bool) : AtomicNode D :=
  let ps := normalized ps
  let tag := w.history.length
  match ps with
  | [] => w
  | [(s, statements)] =>
    let w := { w with history := ⟨tag, [s]⟩ :: w.history }
    if admitted ∧ w.parked s = none then
      match (w.images s).applyAlone sq statements ddl with
      | some img => w.apply s tag img
      | none => w
    else w
  | _ =>
    { w with
      history := ⟨tag, ps.map Prod.fst⟩ :: w.history
      nextTxn := w.nextTxn + 1
      phase := .serving (some ⟨tag, w.nextTxn, ps, ddl, .preparing ps⟩) }

/-- Apply a decided record again on one shard. -/
def reapply (r : Logged) (s : ShardId) (statements : List Statement)
    (shards : List ShardId) (rest : List Logged) : AtomicNode D :=
  let next := Phase.marking r s shards rest
  if statements = [] then { w with phase := next }
  else
    match (w.images s).applyAlone sq statements r.record.ddl with
    | some img => { w.apply s r.tag img with phase := next }
    -- a refused schema change fails the start, a refused write is not looked at
    | none => if r.record.ddl then w.crashed else { w with phase := next }

/-- A write on one shard; the writer is busy while a transaction is open on it. -/
def write (s : ShardId) (statements : List Statement) (admitted : Bool) : AtomicNode D :=
  if admitted ∧ w.parked s = none then
    match (w.images s).applyAtomicGroup sq statements with
    | some img => w.setImage s img
    | none => w
  else w

def prepareNext (f : InFlight) (admitted : Bool) : AtomicNode D :=
  match f.stage with
  | .preparing [] => w.stage f .recording
  | .preparing ((s, statements) :: todo) =>
    if admitted ∧ w.parked s = none then
      match (w.images s).prepareGroup sq f.id statements f.ddl with
      | some img => (w.park s (some img)).stage f (.preparing todo)
      | none => w.stage f (.aborting f.shards)
    else w.stage f (.aborting f.shards)
  | _ => w

def putRecord (f : InFlight) (ok : Bool) : AtomicNode D :=
  match f.stage with
  | .recording =>
    if ok then
      { w.stage f (.committing f.shards false) with
        records := w.records.insert f.id ⟨f.tag, f.record⟩ }
    else w.idle
  | _ => w

def commitNext (f : InFlight) (answer : CommitAnswer) : AtomicNode D :=
  match f.stage with
  | .committing [] failed => if failed then w.idle else w.stage f .removing
  | .committing (s :: todo) failed =>
    match answer with
    | .refused => w.stage f (.committing todo true)
    | .lost => (w.park s none).stage f (.committing todo true)
    | .decided gateOpen shipped =>
      match w.parked s with
      | none => w.stage f (.committing todo failed)
      | some img =>
        if gateOpen then
          ((w.park s none).apply s f.tag img).stage f (.committing todo (failed || !shipped))
        else (w.park s none).stage f (.committing todo failed)
  | _ => w

def removeRecord (f : InFlight) (ok : Bool) : AtomicNode D :=
  match f.stage with
  | .removing => { w.idle with records := if ok then w.records.erase f.id else w.records }
  | _ => w

def abortNext (f : InFlight) (admitted : Bool) : AtomicNode D :=
  match f.stage with
  | .aborting [] => w.idle
  | .aborting (s :: todo) => (if admitted then w.park s none else w).stage f (.aborting todo)
  | _ => w

/-- `open`: every record that is left is resolved first. -/
def restart : AtomicNode D :=
  { w with nextTxn := nextIdAfterRecovery w.records, phase := .resolve w.records.values }

/-- The first shard of the record that is still to do.  A marker that cannot be
    read counts as missing. -/
def recoverShard (r : Logged) (s : ShardId) (shards : List ShardId)
    (rest : List Logged) (readable admitted : Bool) : AtomicNode D :=
  let next := { w with phase := .recovering r shards rest }
  if readable ∧ (w.images s).hasApplied r.record.id then next
  else
    match r.record.statementsFor s with
    | none => next
    | some statements =>
      if admitted then w.reapply sq r s statements shards rest else w.crashed

def recoverMark (r : Logged) (s : ShardId) (shards : List ShardId)
    (rest : List Logged) (admitted : Bool) : AtomicNode D :=
  if admitted then
    { w.setImage s ((w.images s).mark r.record.id) with phase := .recovering r shards rest }
  else w.crashed

def recoverRemove (r : Logged) (rest : List Logged) (ok : Bool) : AtomicNode D :=
  if ok then { w with records := w.records.erase r.record.id, phase := .resolve rest }
  else w.crashed

/-- One act; an act that does not fit the phase does nothing. -/
def step (a : AtomicAct) : AtomicNode D :=
  match a, w.phase with
  | .write s statements admitted, .serving _ => w.write sq s statements admitted
  | .start ps ddl admitted, .serving none => w.startTxn sq ps ddl admitted
  | .prepareNext admitted, .serving (some f) => w.prepareNext sq f admitted
  | .putRecord ok, .serving (some f) => w.putRecord f ok
  | .commitNext answer, .serving (some f) => w.commitNext f answer
  | .removeRecord ok, .serving (some f) => w.removeRecord f ok
  | .abortNext admitted, .serving (some f) => w.abortNext f admitted
  | .crash, _ => w.crashed
  | .restart, .down => w.restart
  | .recoverShard readable admitted, .recovering r (s :: shards) rest =>
    w.recoverShard sq r s shards rest readable admitted
  | .recoverMark admitted, .marking r s shards rest => w.recoverMark r s shards rest admitted
  | .recoverRemove ok, .recovering r [] rest => w.recoverRemove r rest ok
  | _, _ => w

def runs (db : D) (acts : List AtomicAct) : AtomicNode D :=
  Machine.run (step sq) (init db) acts

end AtomicNode

end Shardlite.Shard
