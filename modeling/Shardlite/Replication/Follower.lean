/-
  Shardlite.Replication.Follower

  A follower's copy of a shard with the position it is durable at.  Frames are
  applied only where the copy left off; a snapshot replaces the copy.  A database
  is of any type `D`, and `app` is what a transaction's frames do to it.
-/
import Shardlite.Replication.FrameLog

namespace Shardlite.Replication

/-- How far a copy has come, in which stream. -/
structure Position where
  epoch : Nat := 0
  appliedLsn : Nat := 0
  deriving DecidableEq, Repr

def Position.fresh (p : Position) : Bool := p.epoch = 0 ∧ p.appliedLsn = 0

/-- A batch that does not go on where the copy left off. -/
structure ReplicationGap where
  expected : Nat
  got : Nat
  detail : String
  deriving DecidableEq, Repr

/-- The first transaction that is not at its place, if any. -/
def firstGap {T : Type} (expected : Nat) : List (StreamTxn T) → Option ReplicationGap
  | [] => none
  | t :: ts =>
    if t.lsn ≠ expected then some ⟨expected, t.lsn, "the stream is not contiguous"⟩
    else firstGap (expected + 1) ts

theorem eq_positioned_of_firstGap {T : Type} {first : Nat} {txns : List (StreamTxn T)}
    (h : firstGap first txns = none) : txns = positioned first (txns.map (·.txn)) := by
  induction txns generalizing first with
  | nil => rfl
  | cons t txns ih =>
    rw [firstGap] at h
    split_ifs at h with hlsn
    have hlsn : t.lsn = first := not_not.1 hlsn
    rw [List.map_cons, positioned, ← ih h, ← hlsn]

/-- A database, and the position it is at. -/
structure Copy (D : Type) where
  image : D
  position : Position := {}
  deriving DecidableEq

namespace Copy

variable {D T : Type} (app : D → T → D)

/-- Apply transactions that a primary served in `epoch`. -/
def apply (c : Copy D) (epoch : Nat) (txns : List (StreamTxn T)) :
    Except ReplicationGap (Copy D) :=
  match txns.head?, txns.getLast? with
  | some first, some last =>
    let pos := c.position
    if ¬ pos.fresh ∧ pos.epoch ≠ epoch then
      .error ⟨pos.appliedLsn + 1, first.lsn,
        s!"epoch {pos.epoch} does not match the primary's {epoch}"⟩
    else if pos.fresh ∧ first.lsn ≠ 1 then
      .error ⟨1, first.lsn, "an uninitialised follower can only join a stream at LSN 1"⟩
    else
      match firstGap (pos.appliedLsn + 1) txns with
      | some gap => .error gap
      | none => .ok ⟨(txns.map (·.txn)).foldl app c.image, ⟨epoch, last.lsn⟩⟩
  | _, _ => .ok c

/-- Install a snapshot taken at `(epoch, lsn)`, replacing whatever is there. -/
def installSnapshot (_ : Copy D) (epoch lsn : Nat) (image : D) : Copy D := ⟨image, ⟨epoch, lsn⟩⟩

variable {app} {c : Copy D} {epoch : Nat}

theorem firstGap_positioned (first : Nat) (as : List T) :
    firstGap first (positioned first as) = none := by
  induction as generalizing first with
  | nil => rfl
  | cons a as ih =>
    rw [positioned, firstGap, if_neg (not_not.2 rfl)]
    exact ih _

theorem apply_positioned (hepoch : c.position.fresh = true ∨ c.position.epoch = epoch)
    {as : List T} (hne : as ≠ []) :
    c.apply app epoch (positioned (c.position.appliedLsn + 1) as) =
      .ok ⟨as.foldl app c.image, ⟨epoch, c.position.appliedLsn + as.length⟩⟩ := by
  obtain ⟨a, hhead⟩ := exists_head?_positioned (c.position.appliedLsn + 1) hne
  obtain ⟨b, hlast⟩ := exists_getLast?_positioned (c.position.appliedLsn + 1) hne
  have hpos : 0 < as.length := List.length_pos_iff.2 hne
  rw [apply, hhead, hlast]
  simp only
  rw [if_neg, if_neg, firstGap_positioned, map_txn_positioned]
  · rw [Nat.add_right_comm, Nat.add_sub_cancel]
  · -- a fresh copy is at LSN 0, so the batch begins at 1
    rintro ⟨hfresh, hone⟩
    have hzero : c.position.appliedLsn = 0 := (of_decide_eq_true hfresh).2
    exact hone (by rw [hzero])
  · rintro ⟨hnot, hdiff⟩
    exact hepoch.elim hnot hdiff

end Copy

end Shardlite.Replication
