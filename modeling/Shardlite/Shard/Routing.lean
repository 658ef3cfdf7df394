/-
  Shardlite.Shard.Routing

  The two key-routing schemes.  `ModuloV1` has a fixed shard count; `LinearV1`
  grows one shard at a time and moves the keys of one old bucket only.
-/
import Shardlite.Base

namespace Shardlite.Shard

def hashKey (key : List UInt8) : UInt64 :=
  key.foldl (fun hash byte => (hash ^^^ byte.toUInt64) * 0x100000001b3) 0xcbf29ce484222325

structure ModuloV1 where
  shardCount : Nat
  pos : 0 < shardCount
  lt_u32 : shardCount < 2 ^ 32
  deriving DecidableEq

namespace ModuloV1

def new (shardCount : Nat) : Except Error ModuloV1 :=
  if h : 0 < shardCount ∧ shardCount < 2 ^ 32 then .ok ⟨shardCount, h.1, h.2⟩
  else .error (.shardConfig "modulo routing requires at least one shard")

def routeHash (r : ModuloV1) (hash : UInt64) : ShardId := hash.toNat % r.shardCount

end ModuloV1

/-- Incremental linear hashing: `2 ^ level + splitPointer` active shards, of
    which bucket `splitPointer` is the next to split. -/
structure LinearV1 where
  level : Nat
  splitPointer : Nat
  level_lt : level < 32
  split_lt : splitPointer < 2 ^ level
  deriving DecidableEq

namespace LinearV1

def one : LinearV1 := ⟨0, 0, by decide, by decide⟩

def two : LinearV1 := ⟨1, 0, by decide, by decide⟩

def new (level splitPointer : Nat) : Except Error LinearV1 :=
  if hl : level < 32 then
    if hs : splitPointer < 2 ^ level then .ok ⟨level, splitPointer, hl, hs⟩
    else .error (.shardConfig (s!"linear routing split_pointer {splitPointer} is outside " ++
      s!"0..{2 ^ level} at level {level}"))
  else .error (.shardConfig s!"linear routing level {level} exceeds the u32 shard-id space")

variable (r : LinearV1)

/-- The shards before the current round of splits. -/
def base : Nat := 2 ^ r.level

/-- A split adds one shard. -/
def shardCount : Nat := r.base + r.splitPointer

/-- The only old shard whose keys may move in the next growth step. -/
def splitSource : ShardId := r.splitPointer

/-- The new shard the next growth step creates. -/
def splitDestination : ShardId := r.base + r.splitPointer

/-- The routing state after one committed split. -/
def grown : Except Error LinearV1 :=
  let next := r.splitPointer + 1
  if next = r.base then
    -- `level` is a `u8`
    if r.level + 1 < 2 ^ 8 then new (r.level + 1) 0
    else .error (.shardConfig "linear routing exhausted its level space")
  else new r.level next

variable {r : LinearV1}

theorem new_eq_ok {level splitPointer : Nat} (h : new level splitPointer = .ok r) :
    r.level = level ∧ r.splitPointer = splitPointer := by
  unfold new at h
  split_ifs at h
  obtain rfl := Except.ok.inj h
  exact ⟨rfl, rfl⟩

theorem shardCount_of_grown {r' : LinearV1} (h : r.grown = .ok r') :
    r'.shardCount = r.shardCount + 1 := by
  have hlt : r.splitPointer < r.base := r.split_lt
  unfold grown at h
  simp only at h
  split_ifs at h with hfull
  · obtain ⟨hlevel, hsplit⟩ := new_eq_ok h
    have hbase : r'.base = 2 * r.base := by rw [base, base, hlevel, pow_succ, mul_comm]
    rw [shardCount, shardCount, hbase, hsplit]
    omega
  · obtain ⟨hlevel, hsplit⟩ := new_eq_ok h
    have hbase : r'.base = r.base := by rw [base, base, hlevel]
    rw [shardCount, shardCount, hbase, hsplit]
    omega

/-- There is room to grow far beyond the shards that a node can open. -/
theorem exists_grown (h : r.shardCount < 256) : ∃ r', r.grown = .ok r' := by
  have hlt : r.splitPointer < r.base := r.split_lt
  have hbase : 2 ^ r.level < 2 ^ 8 := lt_of_le_of_lt (Nat.le_add_right _ _) h
  have hlevel : r.level < 8 := (Nat.pow_lt_pow_iff_right (by decide)).1 hbase
  unfold grown
  simp only
  split_ifs with hfull hsmall
  · exact ⟨_, by rw [new, dif_pos (by omega), dif_pos (Nat.two_pow_pos _)]⟩
  · omega
  · have hnext : r.splitPointer + 1 < 2 ^ r.level := lt_of_le_of_ne hlt hfull
    exact ⟨_, by rw [new, dif_pos (by omega), dif_pos hnext]⟩

/-- A shard that was split in this round uses one more bit. -/
def routeHash (hash : UInt64) : ShardId :=
  let first := hash.toNat % r.base
  if first < r.splitPointer then hash.toNat % (r.base * 2) else first

end LinearV1

/-- The versioned router stored in cluster metadata. -/
inductive Routing where
  | moduloV1 (routing : ModuloV1)
  | linearV1 (routing : LinearV1)
  deriving DecidableEq

namespace Routing

def route (r : Routing) (key : List UInt8) : ShardId :=
  match r with
  | .moduloV1 routing => routing.routeHash (hashKey key)
  | .linearV1 routing => routing.routeHash (hashKey key)

def shardCount : Routing → Nat
  | .moduloV1 routing => routing.shardCount
  | .linearV1 routing => routing.shardCount

theorem shardCount_pos (r : Routing) : 0 < r.shardCount := by
  cases r with
  | moduloV1 routing => exact routing.pos
  | linearV1 routing => exact Nat.add_pos_left (Nat.two_pow_pos routing.level) _

end Routing

end Shardlite.Shard
