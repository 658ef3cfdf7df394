/-
  Shardlite.Replication.Stream

  Stream positions and the way captured transactions get them.  A position is an
  epoch with an LSN that is dense within it.  The positions are written to a file
  when the node starts, marked dirty, and again on a clean shutdown; a start that
  finds them dirty begins a new epoch.

  A transaction is of any type `T`; all that is read of it is the size of its
  frames.
-/
import Shardlite.Base
import Shardlite.Lib.OrdMap

namespace Shardlite.Replication

/-- A committed transaction with its position. -/
structure StreamTxn (T : Type) where
  lsn : Nat
  txn : T
  deriving DecidableEq, Repr

def positioned {T : Type} (first : Nat) : List T → List (StreamTxn T)
  | [] => []
  | txn :: txns => ⟨first, txn⟩ :: positioned (first + 1) txns

section Positioned

variable {T : Type} (first : Nat) (as bs : List T)

theorem positioned_append :
    positioned first (as ++ bs) = positioned first as ++ positioned (first + as.length) bs := by
  induction as generalizing first with
  | nil => rfl
  | cons a as ih =>
    rw [List.cons_append, positioned, ih, positioned, List.cons_append, List.length_cons,
      Nat.add_right_comm first 1, Nat.add_assoc]

@[simp] theorem length_positioned : (positioned first as).length = as.length := by
  induction as generalizing first with
  | nil => rfl
  | cons a as ih => rw [positioned, List.length_cons, ih, List.length_cons]

theorem positioned_take (n : Nat) :
    (positioned first as).take n = positioned first (as.take n) := by
  induction as generalizing first n with
  | nil => rw [List.take_nil, positioned, List.take_nil]
  | cons a as ih =>
    cases n with
    | zero => rfl
    | succ n => rw [positioned, List.take_succ_cons, ih, List.take_succ_cons, positioned]

@[simp] theorem map_txn_positioned : (positioned first as).map (·.txn) = as := by
  induction as generalizing first with
  | nil => rfl
  | cons a as ih => rw [positioned, List.map_cons, ih]

variable {as}

theorem exists_head?_positioned (hne : as ≠ []) :
    ∃ a, (positioned first as).head? = some ⟨first, a⟩ := by
  cases as with
  | nil => exact absurd rfl hne
  | cons a as => exact ⟨a, rfl⟩

theorem exists_getLast?_positioned (hne : as ≠ []) :
    ∃ b, (positioned first as).getLast? = some ⟨first + as.length - 1, b⟩ := by
  obtain ⟨bs, b, rfl⟩ := (List.eq_nil_or_concat' as).resolve_left hne
  refine ⟨b, ?_⟩
  rw [positioned_append, positioned, positioned, List.getLast?_append_cons, List.getLast?_singleton,
    List.length_append, List.length_singleton]
  rfl

variable {first}

theorem lsn_of_mem_positioned {t : StreamTxn T} (h : t ∈ positioned first as) :
    first ≤ t.lsn ∧ t.lsn < first + as.length := by
  induction as generalizing first with
  | nil => cases h
  | cons a as ih =>
    rw [List.length_cons]
    rcases List.mem_cons.1 h with rfl | h
    · exact ⟨le_refl first, Nat.lt_add_of_pos_right (Nat.succ_pos _)⟩
    · have := ih h
      omega

end Positioned

/-! ## Positions -/

/-- A primary's position in every shard's stream, in memory and in its file. -/
structure Positions where
  epoch : Nat := 0
  /-- Next LSN to hand out, per shard. -/
  next : OrdMap ShardId Nat := .empty
  clean : Bool := false
  deriving DecidableEq

namespace Positions

/-- The positions a node starts with, which it writes back at once.  Only a clean
    file continues its epoch. -/
def loadOrInit (file : Option Positions) : Positions :=
  let p := file.getD {}
  if p.clean then { p with clean := false } else { epoch := p.epoch + 1 }

variable (p : Positions)

/-- Positions of a shard begin at 1. -/
def nextLsn (shard : ShardId) : Nat := (p.next.get? shard).getD 1

/-- Hand out `count` consecutive positions. -/
def allocate (shard : ShardId) (count : Nat) : Nat × Positions :=
  let start := p.nextLsn shard
  (start, { p with next := p.next.insert shard (start + count) })

/-- Hand back `count` positions that were allocated and never shipped. -/
def rollback (shard : ShardId) (count : Nat) : Positions :=
  match p.next.get? shard with
  | some next => { p with next := p.next.insert shard (max (next - count) 1) }
  | none => p

/-- The last position handed out, 0 if there is none. -/
def lastAllocated (shard : ShardId) : Nat :=
  ((p.next.get? shard).map (· - 1)).getD 0

/-- What a clean stop writes. -/
def markClean : Positions := { p with clean := true }

variable {p : Positions} {shard s : ShardId} {count : Nat}

@[simp] theorem allocate_epoch : (p.allocate shard count).2.epoch = p.epoch := rfl

theorem nextLsn_allocate :
    (p.allocate shard count).2.nextLsn s =
      if s = shard then p.nextLsn shard + count else p.nextLsn s := by
  simp only [allocate, nextLsn, OrdMap.get?_insert]
  split_ifs <;> rfl

@[simp] theorem rollback_epoch : (p.rollback shard count).epoch = p.epoch := by
  unfold rollback
  split <;> rfl

theorem nextLsn_rollback_allocate (hpos : 0 < p.nextLsn shard) :
    ((p.allocate shard count).2.rollback shard count).nextLsn s = p.nextLsn s := by
  have hget : (p.allocate shard count).2.next.get? shard = some (p.nextLsn shard + count) := by
    rw [allocate, OrdMap.get?_insert, if_pos rfl]
  rw [rollback, hget]
  simp only [nextLsn, OrdMap.get?_insert, allocate] at hpos ⊢
  split_ifs with hs
  · subst hs
    rw [Option.getD_some]
    omega
  · rfl

@[simp] theorem loadOrInit_markClean :
    loadOrInit (some p.markClean) = { p with clean := false } := rfl

theorem loadOrInit_of_dirty (h : p.clean = false) :
    loadOrInit (some p) = { epoch := p.epoch + 1 } := by
  simp [loadOrInit, h]

end Positions

/-! ## Captured transactions -/

/-- What the WAL capture of one shard has not handed on yet. -/
structure WalCapture (T : Type) where
  committed : List T := []
  retainedBytes : Nat := 0
  overflowed : Bool := false
  deriving DecidableEq

/-- The size of a transaction's frames and how many bytes a capture may retain;
    no limit when the latter is 0. -/
structure Retention (T : Type) where
  size : T → Nat
  maxRetainedBytes : Nat

namespace WalCapture

variable {T : Type} (ret : Retention T) (c : WalCapture T)

/-- Add bytes to what is retained, and notice when that is too much. -/
def retain (bytes : Nat) : WalCapture T :=
  { c with
    retainedBytes := c.retainedBytes + bytes
    overflowed := c.overflowed ||
      (0 < ret.maxRetainedBytes && ret.maxRetainedBytes < c.retainedBytes + bytes) }

def emitCommit (txn : T) : WalCapture T :=
  { c.retain ret (ret.size txn) with committed := c.committed ++ [txn] }

/-- What is left once every committed transaction is taken out.  No transaction
    is half-written between two of them. -/
def drained : WalCapture T :=
  let retainedBytes := c.retainedBytes - (c.committed.map ret.size).sum
  { committed := [], retainedBytes
    overflowed := c.overflowed && !decide (retainedBytes ≤ ret.maxRetainedBytes) }

/-- Give drained transactions back, before anything committed since. -/
def requeue (txns : List T) : WalCapture T :=
  if txns.isEmpty then c
  else { c.retain ret (txns.map ret.size).sum with committed := txns ++ c.committed }

@[simp] theorem committed_emitCommit (txn : T) :
    (c.emitCommit ret txn).committed = c.committed ++ [txn] := rfl

@[simp] theorem committed_drained : (c.drained ret).committed = [] := rfl

@[simp] theorem committed_requeue (txns : List T) :
    (c.requeue ret txns).committed = txns ++ c.committed := by
  unfold requeue
  split_ifs with h
  · rw [List.isEmpty_iff.1 h]
    rfl
  · rfl

end WalCapture

/-! ## Shipping -/

/-- The sink a shard's transactions go to: none attached, or what it answers. -/
inductive SinkAnswer where
  | detached
  | accepts
  | refuses
  deriving DecidableEq, Repr

inductive Shipped where
  | nothing
  /-- The last position handed to the sink. -/
  | upTo (lsn : Nat)
  | refused
  | captureOverflow
  deriving DecidableEq, Repr

structure DrainResult (T : Type) where
  capture : WalCapture T
  positions : Positions
  /-- What the sink took. -/
  delivered : List (StreamTxn T)
  shipped : Shipped

/-- Hand a shard's committed transactions to the sink.  Without one they are
    dropped, and their positions stay used. -/
def drainCapture {T : Type} (ret : Retention T) (c : WalCapture T) (p : Positions)
    (shard : ShardId) (sink : SinkAnswer) : DrainResult T :=
  let txns := c.committed
  let left := c.drained ret
  if txns.isEmpty then ⟨left, p, [], .nothing⟩
  else
    let count := txns.length
    let (first, p') := p.allocate shard count
    let shipped := if left.overflowed then .captureOverflow else .upTo (first + count - 1)
    match sink with
    | .refuses =>
      let back := left.requeue ret txns
      ⟨back, p'.rollback shard count, [],
        if back.overflowed then .captureOverflow else .refused⟩
    | .accepts => ⟨left, p', positioned first txns, shipped⟩
    | .detached => ⟨left, p', [], shipped⟩

end Shardlite.Replication
