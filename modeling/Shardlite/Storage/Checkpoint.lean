/-
  Shardlite.Storage.Checkpoint

  A shard's database file with its write-ahead log, and the checkpointing the
  writer thread does between transactions.  Committing only ever appends to the
  log; a checkpoint copies committed transactions back into the main file, up to
  the end mark of the oldest active reader.

  A transaction is of any type `T`.  Files are counted in transactions: pages are
  copied back in commit order and a reader's mark is the end of a commit, so the
  main file always holds a number of transactions from the beginning on.
-/
import Shardlite.Base

namespace Shardlite.Storage

/-! ## The files -/

/-- A shard's file and log, as transactions. -/
structure ShardFile (T : Type) where
  /-- What the shard held where its stream's epoch begins. -/
  base : List T := []
  /-- What was committed since, in commit order. -/
  stream : List T := []
  /-- How many of all these transactions the main file holds. -/
  folded : Nat := 0
  /-- How often the main file was written to. -/
  writes : Nat := 0
  /-- The end marks of the reads in progress. -/
  readers : List Nat := []
  fits : folded ≤ (base ++ stream).length := by exact Nat.zero_le _
  deriving DecidableEq

/-- `wal_checkpoint` modes.  Both copy what readers allow; only the second goes on
    to wait for the readers and to cut the log. -/
inductive CheckpointMode where
  | passive
  | truncate
  deriving DecidableEq, Repr

/-- What becomes of a checkpoint when it is tried. -/
inductive Attempt where
  | runs
  /-- Another connection holds the checkpoint lock. -/
  | locked
  /-- SQLite reports an error. -/
  | fails
  deriving DecidableEq, Repr

/-- The row the checkpoint pragma returns.  Both counts are taken from the first
    transaction on; only their difference is ever read. -/
structure CheckpointRow where
  busy : Bool
  logPages : Nat
  checkpointed : Nat
  deriving DecidableEq, Repr

namespace ShardFile

variable {T : Type} (f : ShardFile T)

/-- Everything committed, which is what a connection reads. -/
def content : List T := f.base ++ f.stream

/-- What the main file alone holds. -/
def main : List T := f.content.take f.folded

/-- The shard as it was at a position of its stream. -/
def imageAt (lsn : Nat) : List T := f.base ++ f.stream.take lsn

def commit (txn : T) : ShardFile T :=
  { f with
    stream := f.stream ++ [txn]
    fits := by
      rw [← List.append_assoc, List.length_append]
      exact Nat.le_add_right_of_le f.fits }

/-- A read begins: it keeps what is committed now in sight. -/
def readBegin : ShardFile T := { f with readers := f.content.length :: f.readers }

def readEnd (mark : Nat) : ShardFile T := { f with readers := f.readers.erase mark }

def safe : Nat := f.readers.foldr min f.content.length

/-- Copy transactions into the main file until it holds `upTo` of them. -/
def backfill (upTo : Nat) : ShardFile T :=
  if f.folded < min upTo f.content.length then
    { f with
      folded := min upTo f.content.length
      writes := f.writes + 1
      fits := min_le_right upTo f.content.length }
  else f

/-- `PRAGMA wal_checkpoint`. -/
def walCheckpoint (mode : CheckpointMode) : Attempt → Option CheckpointRow × ShardFile T
  | .fails => (none, f)
  | .locked => (some ⟨true, f.content.length, f.folded⟩, f)
  | .runs =>
    let f' := f.backfill f.safe
    (some ⟨mode = .truncate ∧ f.readers ≠ [], f'.content.length, f'.folded⟩, f')

/-- A connection is closed; the last one on the file folds the log in. -/
def close (last : Bool) : ShardFile T :=
  if last ∧ f.readers = [] then f.backfill f.content.length else f

/-- Two states of the files that differ in what the main file holds only. -/
structure Refolded (f f' : ShardFile T) : Prop where
  base : f'.base = f.base
  stream : f'.stream = f.stream
  readers : f'.readers = f.readers

variable {f}

namespace Refolded

@[refl] theorem refl (f : ShardFile T) : Refolded f f := ⟨rfl, rfl, rfl⟩

theorem trans {f₁ f₂ f₃ : ShardFile T} (h : Refolded f₁ f₂) (h' : Refolded f₂ f₃) :
    Refolded f₁ f₃ :=
  ⟨h'.base.trans h.base, h'.stream.trans h.stream, h'.readers.trans h.readers⟩

theorem content {f f' : ShardFile T} (h : Refolded f f') : f'.content = f.content := by
  rw [ShardFile.content, h.base, h.stream, ShardFile.content]

end Refolded

theorem refolded_backfill (upTo : Nat) : Refolded f (f.backfill upTo) := by
  unfold backfill
  split_ifs <;> exact ⟨rfl, rfl, rfl⟩

theorem refolded_walCheckpoint (mode : CheckpointMode) (a : Attempt) :
    Refolded f (f.walCheckpoint mode a).2 := by
  cases a with
  | runs => exact refolded_backfill f.safe
  | locked | fails => exact .refl f

theorem refolded_close (last : Bool) : Refolded f (f.close last) := by
  unfold close
  split_ifs
  · exact refolded_backfill _
  · exact .refl f

/-- With no read in progress that began before the last commit, a checkpoint may
    copy everything. -/
theorem safe_of_current (h : ∀ mark ∈ f.readers, f.content.length ≤ mark) :
    f.safe = f.content.length := by
  unfold safe
  generalize f.readers = marks at h
  induction marks with
  | nil => rfl
  | cons mark marks ih =>
    rw [List.foldr_cons, ih fun m hm => h m (List.mem_cons_of_mem _ hm)]
    exact min_eq_right (h mark List.mem_cons_self)

theorem main_backfill_all : (f.backfill f.content.length).main = f.content := by
  unfold backfill
  split_ifs with h
  · show f.content.take (min f.content.length f.content.length) = f.content
    rw [min_self, List.take_length]
  · rw [min_self] at h
    exact List.take_of_length_le (not_lt.1 h)

theorem main_commit (txn : T) : (f.commit txn).main = f.main := by
  have hcontent : (f.commit txn).content = f.content ++ [txn] :=
    (List.append_assoc f.base f.stream [txn]).symm
  rw [main, hcontent]
  exact List.take_append_of_le_length f.fits

/-- Two states of the files between which the main file was not written to. -/
structure Untouched (f f' : ShardFile T) : Prop where
  base : f'.base = f.base
  stream : f.stream <+: f'.stream
  main : f'.main = f.main
  writes : f'.writes = f.writes

variable {lsn : Nat}

@[refl] theorem Untouched.refl (f : ShardFile T) : Untouched f f :=
  ⟨rfl, List.prefix_refl _, rfl, rfl⟩

theorem untouched_commit (txn : T) : Untouched f (f.commit txn) :=
  ⟨rfl, List.prefix_append _ _, main_commit txn, rfl⟩

theorem untouched_readBegin : Untouched f f.readBegin := ⟨rfl, List.prefix_refl _, rfl, rfl⟩

theorem untouched_readEnd (mark : Nat) : Untouched f (f.readEnd mark) :=
  ⟨rfl, List.prefix_refl _, rfl, rfl⟩

/-- What is past a position does not change the shard as it was there. -/
theorem Untouched.imageAt {f' : ShardFile T} (h : Untouched f f')
    (hlsn : lsn ≤ f.stream.length) : f'.imageAt lsn = f.imageAt lsn := by
  obtain ⟨more, hmore⟩ := h.stream
  rw [ShardFile.imageAt, h.base, ← hmore, List.take_append_of_le_length hlsn, ShardFile.imageAt]

theorem imageAt_length (h : lsn = f.stream.length) : f.imageAt lsn = f.content := by
  rw [imageAt, h, List.take_length, content]

end ShardFile

/-! ## The ladder of attempts -/

/-- When to checkpoint, and when to escalate. -/
structure CheckpointConfig where
  checkEveryBatches : Nat
  softLimitBytes : Nat
  hardLimitBytes : Nat
  stallThreshold : Nat
  maxStallBackoff : Nat

structure Checkpointer where
  /-- Consecutive passive attempts that failed to drain the log. -/
  consecutiveStalls : Nat := 0
  batchesSinceCheck : Nat := 0
  /-- Multiplier on `checkEveryBatches`, doubled while stalling. -/
  stallBackoff : Nat := 1
  deriving DecidableEq, Repr

/-- Called after each committed batch.  `attempts` are what becomes of the passive
    checkpoint and of the one it may escalate to. -/
def Checkpointer.afterBatch {T : Type} (cfg : CheckpointConfig) (c : Checkpointer)
    (f : ShardFile T) (walBytes : Nat) (attempts : Attempt × Attempt) :
    Checkpointer × ShardFile T :=
  let c := { c with batchesSinceCheck := c.batchesSinceCheck + 1 }
  if c.batchesSinceCheck < cfg.checkEveryBatches * c.stallBackoff then (c, f)
  else
    let c := { c with batchesSinceCheck := 0 }
    if walBytes < cfg.softLimitBytes then (c, f)
    else
      let (row, f) := f.walCheckpoint .passive attempts.1
      let stalled := row.any fun r => r.busy || decide (r.checkpointed < r.logPages)
      let c :=
        if stalled then
          { c with
            consecutiveStalls := c.consecutiveStalls + 1
            stallBackoff := min (c.stallBackoff * 2) cfg.maxStallBackoff }
        else { c with consecutiveStalls := 0, stallBackoff := 1 }
      -- Only a log that has really grown is worth blocking readers for.
      if cfg.stallThreshold ≤ c.consecutiveStalls ∧ cfg.hardLimitBytes ≤ walBytes then
        let (row, f) := f.walCheckpoint .truncate attempts.2
        ({ c with
            consecutiveStalls := 0
            stallBackoff := if row.isSome then 1 else c.stallBackoff }, f)
      else (c, f)

theorem Checkpointer.refolded_afterBatch {T : Type} (cfg : CheckpointConfig) (c : Checkpointer)
    (f : ShardFile T) (walBytes : Nat) (attempts : Attempt × Attempt) :
    f.Refolded (c.afterBatch cfg f walBytes attempts).2 := by
  unfold afterBatch
  dsimp only
  split_ifs
  · exact .refl f
  · exact .refl f
  all_goals
    first
    | exact (ShardFile.refolded_walCheckpoint _ _).trans (ShardFile.refolded_walCheckpoint _ _)
    | exact ShardFile.refolded_walCheckpoint _ _

end Shardlite.Storage
