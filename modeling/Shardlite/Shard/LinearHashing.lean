/-
  Shardlite.Shard.LinearHashing

  What linear hashing promises.  A router with `n` shards sends every hash to a
  shard below `n`, there is one router for each `n`, growing it by one gives
  the router for `n + 1`, and only hashes of the bucket that splits move, all
  of them to the new shard.

  The second half redoes the arithmetic the way the code does it, in `u8`,
  `u32` and `u64`, with every operation that leaves its width counted as a
  failure, and shows that none ever does.
-/
import Shardlite.Shard.Routing

namespace Shardlite.Shard.LinearV1

variable {r r' s : LinearV1} {n : Nat}

/-! ## The router with a given number of shards -/

/-- The number of zero bits above the highest set bit of a `u32`. -/
def leadingZeros (n : Nat) : Nat := if n = 0 then 32 else 31 - n.log2

/-- The canonical state for exactly `activeShards` shards. -/
def forShardCount (activeShards : Nat) : Except Error LinearV1 :=
  if activeShards = 0 then .error (.shardConfig "linear routing requires at least one shard")
  else
    let level := 31 - leadingZeros activeShards
    new level (activeShards - 2 ^ level)

theorem base_pos (r : LinearV1) : 0 < r.base := Nat.two_pow_pos r.level

theorem base_le (r : LinearV1) : r.base ≤ 2 ^ 31 :=
  Nat.pow_le_pow_right (by decide) (Nat.le_of_lt_succ r.level_lt)

theorem shardCount_lt (r : LinearV1) : r.shardCount < 2 ^ 32 := by
  have hsplit : r.splitPointer < r.base := r.split_lt
  have hbase := r.base_le
  unfold shardCount
  omega

theorem shardCount_pos (r : LinearV1) : 0 < r.shardCount :=
  Nat.add_pos_left r.base_pos _

/-- The level is the position of the highest set bit of the count. -/
theorem log2_shardCount (r : LinearV1) : r.shardCount.log2 = r.level := by
  have hsplit : r.splitPointer < r.base := r.split_lt
  have hne : r.shardCount ≠ 0 := r.shardCount_pos.ne'
  rw [Nat.log2_eq_iff hne]
  constructor
  · exact Nat.le_add_right _ _
  · rw [pow_succ]
    show r.base + r.splitPointer < r.base * 2
    omega

theorem new_eq_self (r : LinearV1) : new r.level r.splitPointer = .ok r := by
  rw [new, dif_pos r.level_lt, dif_pos r.split_lt]

theorem leadingZeros_shardCount (r : LinearV1) :
    31 - leadingZeros r.shardCount = r.level := by
  have hlevel := r.level_lt
  rw [leadingZeros, if_neg r.shardCount_pos.ne', log2_shardCount]
  omega

theorem forShardCount_shardCount (r : LinearV1) : forShardCount r.shardCount = .ok r := by
  have hsplit : r.shardCount - 2 ^ r.level = r.splitPointer := by
    show r.base + r.splitPointer - r.base = r.splitPointer
    omega
  unfold forShardCount
  simp only [if_neg r.shardCount_pos.ne', leadingZeros_shardCount, hsplit]
  exact r.new_eq_self

theorem eq_of_shardCount_eq (h : r.shardCount = s.shardCount) : r = s := by
  have hr := r.forShardCount_shardCount
  rw [h, s.forShardCount_shardCount] at hr
  exact (Except.ok.inj hr).symm

theorem exists_shardCount_eq (hpos : 0 < n) (hlt : n < 2 ^ 32) :
    ∃ r : LinearV1, r.shardCount = n := by
  obtain ⟨hlow, hhigh⟩ := (Nat.log2_eq_iff hpos.ne').1 (rfl : n.log2 = n.log2)
  have hlevel : n.log2 < 32 := (Nat.log2_lt hpos.ne').2 hlt
  have hsplit : n - 2 ^ n.log2 < 2 ^ n.log2 := by
    rw [pow_succ] at hhigh
    omega
  refine ⟨⟨n.log2, n - 2 ^ n.log2, hlevel, hsplit⟩, ?_⟩
  show 2 ^ n.log2 + (n - 2 ^ n.log2) = n
  omega

/-! ## Growth -/

theorem exists_grown_of_lt (h : r.shardCount < 2 ^ 32 - 1) : ∃ r', r.grown = .ok r' := by
  have hsplit : r.splitPointer < r.base := r.split_lt
  have hlevel := r.level_lt
  unfold grown
  simp only
  split_ifs with hfull hsmall
  · -- the level rolls over, and a full last level is excluded by the count
    have hlt : r.level + 1 < 32 := by
      by_contra hlast
      have hbase : r.base = 2 ^ 31 := by
        rw [base, show r.level = 31 by omega]
      unfold shardCount at h
      omega
    exact ⟨_, by rw [new, dif_pos hlt, dif_pos (Nat.two_pow_pos _)]⟩
  · omega
  · have hnext : r.splitPointer + 1 < 2 ^ r.level := lt_of_le_of_ne hsplit hfull
    exact ⟨_, by rw [new, dif_pos hlevel, dif_pos hnext]⟩

theorem grown_last (h : r.shardCount = 2 ^ 32 - 1) :
    r.grown = .error (.shardConfig "linear routing level 32 exceeds the u32 shard-id space") := by
  have hsplit : r.splitPointer < r.base := r.split_lt
  have hbase := r.base_le
  have hcount : r.base + r.splitPointer = 2 ^ 32 - 1 := h
  have hlevel : r.level = 31 := by
    have hlast : r.base = 2 ^ 31 := by omega
    exact Nat.pow_right_injective (le_refl 2) hlast
  have hfull : r.splitPointer + 1 = r.base := by omega
  unfold grown
  simp only [hfull, if_true, hlevel]
  rfl

theorem grown_eq_forShardCount (h : r.shardCount < 2 ^ 32 - 1) :
    r.grown = forShardCount (r.shardCount + 1) := by
  obtain ⟨r', hr'⟩ := exists_grown_of_lt h
  rw [hr', ← shardCount_of_grown hr', forShardCount_shardCount]

/-! ## Routes -/

/-- A hash modulo twice the base is its residue modulo the base, or that
    residue moved up by one base. -/
theorem mod_twice_base (r : LinearV1) (hash : Nat) :
    hash % (r.base * 2) = hash % r.base ∨
      hash % (r.base * 2) = hash % r.base + r.base := by
  have hhalf : hash / r.base % 2 < 2 := Nat.mod_lt _ (by decide)
  rw [Nat.mod_mul]
  have hcases : hash / r.base % 2 = 0 ∨ hash / r.base % 2 = 1 := by omega
  obtain h | h := hcases
  · left; rw [h, mul_zero, add_zero]
  · right; rw [h, mul_one]

/-- The route read off the wider residue: it is the route unless that shard
    does not exist yet, and then its lower half is. -/
theorem routeHash_eq (r : LinearV1) (hash : UInt64) :
    r.routeHash hash = if hash.toNat % (r.base * 2) < r.shardCount
      then hash.toNat % (r.base * 2) else hash.toNat % (r.base * 2) - r.base := by
  have hfirst : hash.toNat % r.base < r.base := Nat.mod_lt _ r.base_pos
  have htwice := r.mod_twice_base hash.toNat
  unfold routeHash shardCount
  simp only
  show @Eq Nat _ _
  split_ifs <;> omega

/-- **Every route names an active shard.** -/
theorem routeHash_lt (r : LinearV1) (hash : UInt64) : r.routeHash hash < r.shardCount := by
  have hwide : hash.toNat % (r.base * 2) < r.base * 2 :=
    Nat.mod_lt _ (Nat.mul_pos r.base_pos (by decide))
  have hbase := r.base_pos
  rw [routeHash_eq]
  split_ifs with h
  · exact h
  · have hlow : hash.toNat % (r.base * 2) - r.base < r.shardCount := by
      unfold shardCount
      omega
    exact hlow

/-- The router after growth, read off the same wider residue. -/
theorem routeHash_of_grown (h : r.grown = .ok r') (hash : UInt64) :
    r'.routeHash hash = if hash.toNat % (r.base * 2) < r.shardCount + 1
      then hash.toNat % (r.base * 2) else hash.toNat % (r.base * 2) - r.base := by
  have hsplit : r.splitPointer < r.base := r.split_lt
  have hcount := shardCount_of_grown h
  unfold grown at h
  simp only at h
  split_ifs at h with hfull
  · -- rolled over: the base has doubled and every wider residue has its shard
    obtain ⟨hlevel, hzero⟩ := new_eq_ok h
    have hbase : r'.base = r.base * 2 := by rw [base, base, hlevel, pow_succ]
    have hwide : hash.toNat % (r.base * 2) < r.base * 2 :=
      Nat.mod_lt _ (Nat.mul_pos r.base_pos (by decide))
    have hall : hash.toNat % (r.base * 2) < r.shardCount + 1 := by
      unfold shardCount
      omega
    rw [if_pos hall]
    unfold routeHash
    simp only [hzero, hbase, Nat.not_lt_zero, if_false]
  · obtain ⟨hlevel, -⟩ := new_eq_ok h
    have hbase : r'.base = r.base := by rw [base, base, hlevel]
    rw [routeHash_eq, hbase, hcount]

/-- **Growth moves a hash from the split source to the new shard, or not at
    all.** -/
theorem routeHash_moved (h : r.grown = .ok r') {hash : UInt64}
    (hmoved : r'.routeHash hash ≠ r.routeHash hash) :
    r.routeHash hash = r.splitSource ∧ r'.routeHash hash = r.splitDestination := by
  have hsplit : r.splitPointer < r.base := r.split_lt
  rw [routeHash_of_grown h, routeHash_eq] at hmoved ⊢
  unfold splitSource splitDestination
  unfold shardCount at hmoved ⊢
  -- only the residue equal to the old count is read differently
  have hnew : hash.toNat % (r.base * 2) = r.base + r.splitPointer := by
    by_contra hne
    apply hmoved
    show @Eq Nat _ _
    split_ifs <;> omega
  rw [hnew, if_neg (Nat.lt_irrefl _), if_pos (Nat.lt_succ_self _)]
  exact ⟨Nat.add_sub_cancel_left _ _, rfl⟩

/-- With a power of two of shards the route is the legacy one. -/
theorem routeHash_of_two_pow {k : Nat} (h : r.shardCount = 2 ^ k) (hash : UInt64) :
    r.routeHash hash = hash.toNat % r.shardCount := by
  have hlevel : r.level = k := by
    rw [← r.log2_shardCount, h, Nat.log2_two_pow]
  have hzero : r.splitPointer = 0 := by
    have hcount : r.base + r.splitPointer = r.base := by
      rw [← shardCount, h, base, hlevel]
    omega
  have hbase : r.shardCount = r.base := by rw [shardCount, hzero, add_zero]
  unfold routeHash
  simp only [hzero, hbase, Nat.not_lt_zero, if_false]

/-! ## The same computations in machine words -/

/-- A value that must fit an unsigned word of `w` bits; `none` is the overflow
    that stops a debug build and wraps in a release build. -/
def fits (w n : Nat) : Option Nat := if n < 2 ^ w then some n else none

/-- Machine subtraction; `none` is an overflow. -/
def checkedSub (a b : Nat) : Option Nat := if b ≤ a then some (a - b) else none

theorem fits_of_lt {w n : Nat} (h : n < 2 ^ w) : fits w n = some n := if_pos h

theorem checkedSub_of_le {a b : Nat} (h : b ≤ a) : checkedSub a b = some (a - b) := if_pos h

/-- `1u32 << level`; shifting by the width or more is an overflow. -/
def baseWord (level : Nat) : Option Nat :=
  if level < 32 then fits 32 (1 <<< level) else none

def shardCountWord (r : LinearV1) : Option Nat := do
  let base ← baseWord r.level
  fits 32 (base + r.splitPointer)

def splitDestinationWord (r : LinearV1) : Option ShardId := do
  let base ← baseWord r.level
  fits 32 (base + r.splitPointer)

def grownWord (r : LinearV1) : Option (Except Error LinearV1) := do
  let base ← baseWord r.level
  let next ← fits 32 (r.splitPointer + 1)
  if next = base then
    -- `checked_add`: running out of levels is an answer, not an overflow
    match fits 8 (r.level + 1) with
    | none => pure (.error (.shardConfig "linear routing exhausted its level space"))
    | some level => pure (new level 0)
  else pure (new r.level next)

def routeHashWord (r : LinearV1) (hash : UInt64) : Option ShardId := do
  let base ← baseWord r.level
  let first ← fits 32 (hash.toNat % base)
  if first < r.splitPointer then do
    let twice ← fits 64 (base * 2)
    fits 32 (hash.toNat % twice)
  else pure first

/-- `for_shard_count` on machine words. -/
def forShardCountWord (activeShards : Nat) : Option (Except Error LinearV1) :=
  if activeShards = 0 then
    some (.error (.shardConfig "linear routing requires at least one shard"))
  else do
    let bit ← checkedSub 31 (leadingZeros activeShards)
    let level ← fits 8 bit
    let base ← baseWord level
    let split ← checkedSub activeShards base
    pure (new level split)

theorem baseWord_level (r : LinearV1) : baseWord r.level = some r.base := by
  have hlt : r.base < 2 ^ 32 := lt_of_le_of_lt r.base_le (by decide)
  rw [baseWord, if_pos r.level_lt, Nat.one_shiftLeft]
  exact fits_of_lt hlt

theorem shardCountWord_eq (r : LinearV1) : r.shardCountWord = some r.shardCount := by
  rw [shardCountWord, baseWord_level]
  exact fits_of_lt r.shardCount_lt

theorem splitDestinationWord_eq (r : LinearV1) :
    r.splitDestinationWord = some r.splitDestination := by
  rw [splitDestinationWord, baseWord_level]
  exact fits_of_lt r.shardCount_lt

theorem grownWord_eq (r : LinearV1) : r.grownWord = some r.grown := by
  have hsplit : r.splitPointer < r.base := r.split_lt
  have hbase := r.base_le
  have hnext : fits 32 (r.splitPointer + 1) = some (r.splitPointer + 1) := fits_of_lt (by omega)
  have hlevel : r.level + 1 < 2 ^ 8 := by
    have := r.level_lt
    omega
  rw [grownWord, baseWord_level, Option.bind_eq_bind, Option.bind_some, hnext, Option.bind_some,
    fits_of_lt hlevel, grown]
  simp only [if_pos hlevel]
  split_ifs <;> rfl

theorem routeHashWord_eq (r : LinearV1) (hash : UInt64) :
    r.routeHashWord hash = some (r.routeHash hash) := by
  have hbase := r.base_le
  have hfirst : hash.toNat % r.base < r.base := Nat.mod_lt _ r.base_pos
  have hwide : hash.toNat % (r.base * 2) < r.base * 2 :=
    Nat.mod_lt _ (Nat.mul_pos r.base_pos (by decide))
  have hone : fits 32 (hash.toNat % r.base) = some (hash.toNat % r.base) := fits_of_lt (by omega)
  have htwice : fits 64 (r.base * 2) = some (r.base * 2) := fits_of_lt (by omega)
  have htwo : fits 32 (hash.toNat % (r.base * 2)) = some (hash.toNat % (r.base * 2)) :=
    fits_of_lt (by omega)
  rw [routeHashWord, baseWord_level, Option.bind_eq_bind, Option.bind_some, hone,
    Option.bind_some, routeHash]
  split_ifs with h
  · rw [htwice, Option.bind_some, htwo]
  · rfl

theorem forShardCountWord_eq (h : n < 2 ^ 32) :
    forShardCountWord n = some (forShardCount n) := by
  obtain rfl | hpos := Nat.eq_zero_or_pos n
  · rfl
  obtain ⟨r, rfl⟩ := exists_shardCount_eq hpos h
  have hzeros : leadingZeros r.shardCount ≤ 31 := by
    rw [leadingZeros, if_neg hpos.ne']
    omega
  have hlevel : r.level < 2 ^ 8 := lt_trans r.level_lt (by decide)
  have hle : r.base ≤ r.shardCount := Nat.le_add_right _ _
  rw [forShardCountWord, if_neg hpos.ne', checkedSub_of_le hzeros, leadingZeros_shardCount,
    Option.bind_eq_bind, Option.bind_some, fits_of_lt hlevel, Option.bind_some, baseWord_level,
    Option.bind_some, checkedSub_of_le hle, Option.bind_some, forShardCount, if_neg hpos.ne']
  simp only [leadingZeros_shardCount]
  rfl

/-- No operation of a router leaves the width of its type. -/
structure NoOverflow (r : LinearV1) (hash : UInt64) : Prop where
  shardCount : r.shardCountWord = some r.shardCount
  splitDestination : r.splitDestinationWord = some r.splitDestination
  grown : r.grownWord = some r.grown
  routeHash : r.routeHashWord hash = some (r.routeHash hash)

theorem noOverflow (r : LinearV1) (hash : UInt64) : NoOverflow r hash :=
  ⟨shardCountWord_eq r, splitDestinationWord_eq r, grownWord_eq r, routeHashWord_eq r hash⟩

/-- **Linear hashing.**  Routes stay below the count; growth moves hashes from
    the split source to the new shard only; each count has one state, whose
    growth is the state of the next count until the `u32` range ends; a power
    of two routes as the modulo does; and no computation overflows. -/
theorem linear_hashing :
    (∀ (r : LinearV1) (hash : UInt64), r.routeHash hash < r.shardCount) ∧
    (∀ (r r' : LinearV1) (hash : UInt64), r.grown = .ok r' →
      r'.routeHash hash ≠ r.routeHash hash →
      r.routeHash hash = r.splitSource ∧ r'.routeHash hash = r.splitDestination) ∧
    (∀ n, 1 ≤ n → n ≤ 2 ^ 32 - 1 → ∃ r, forShardCount n = .ok r ∧
      (∀ s : LinearV1, s.shardCount = n ↔ s = r) ∧
      (n < 2 ^ 32 - 1 → r.grown = forShardCount (n + 1) ∧ ∃ r', r.grown = .ok r') ∧
      (n = 2 ^ 32 - 1 → ∃ e, r.grown = .error e)) ∧
    (∀ (r : LinearV1) (k : Nat) (hash : UInt64), r.shardCount = 2 ^ k →
      r.routeHash hash = hash.toNat % r.shardCount) ∧
    (∀ (r : LinearV1) (hash : UInt64), NoOverflow r hash) ∧
    (∀ n, n ≤ 2 ^ 32 - 1 → forShardCountWord n = some (forShardCount n)) := by
  refine ⟨routeHash_lt, fun r r' hash h hmoved => routeHash_moved h hmoved, ?_,
    fun r k hash h => routeHash_of_two_pow h hash, noOverflow, ?_⟩
  · intro n hpos hle
    obtain ⟨r, rfl⟩ := exists_shardCount_eq (Nat.lt_of_succ_le hpos) (by omega)
    refine ⟨r, r.forShardCount_shardCount, fun s => ⟨eq_of_shardCount_eq, ?_⟩, ?_, ?_⟩
    · intro hs
      rw [hs]
    · intro hlt
      exact ⟨grown_eq_forShardCount hlt, exists_grown_of_lt hlt⟩
    · intro hlast
      exact ⟨_, grown_last hlast⟩
  · intro n hle
    exact forShardCountWord_eq (by omega)

end Shardlite.Shard.LinearV1
