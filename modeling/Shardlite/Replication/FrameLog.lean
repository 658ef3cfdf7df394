/-
  Shardlite.Replication.FrameLog

  The frames a primary retains for its followers, and how it answers a follower
  that asks for frames from a position on.  Retention is bounded in bytes and
  keeps at least the newest transaction of a shard.
-/
import Shardlite.Replication.Stream

namespace Shardlite.Replication

structure ShardLog (T : Type) where
  txns : List (StreamTxn T) := []
  bytes : Nat := 0
  deriving DecidableEq

/-- Drop the oldest transactions until the budget is met or one is left. -/
def evict {T : Type} (size : T → Nat) (budget : Nat) : List (StreamTxn T) → Nat → ShardLog T
  | old :: next :: rest, bytes =>
    if budget < bytes then evict size budget (next :: rest) (bytes - size old.txn)
    else ⟨old :: next :: rest, bytes⟩
  | txns, bytes => ⟨txns, bytes⟩

/-- The retained tail of every shard's stream. -/
structure FrameLog (T : Type) where
  perShardBytes : Nat
  shards : OrdMap ShardId (ShardLog T) := .empty
  deriving DecidableEq

/-- What a subscription request can be answered with. -/
inductive Served (T : Type) where
  | frames (txns : List (StreamTxn T))
  | upToDate
  | tooOld (lowestRetained : Nat)
  deriving DecidableEq

namespace FrameLog

variable {T : Type}

/-- A shard's part of the budget, never below 64 KiB. -/
def perShard (totalBytes shardCount : Nat) : Nat := max (totalBytes / max shardCount 1) (64 * 1024)

/-- Retain transactions; this sink never refuses. -/
def accept (log : FrameLog T) (size : T → Nat) (shard : ShardId) (txns : List (StreamTxn T)) :
    FrameLog T :=
  let old := (log.shards.get? shard).getD {}
  let bytes := old.bytes + (txns.map fun t => size t.txn).sum
  { log with shards := log.shards.insert shard (evict size log.perShardBytes (old.txns ++ txns) bytes) }

/-- Answer a subscription from `fromLsn` on. -/
def serve (log : FrameLog T) (shard : ShardId) (fromLsn maxTxns : Nat) : Served T :=
  match log.shards.get? shard with
  | none => if fromLsn ≤ 1 then .upToDate else .tooOld 0
  | some l =>
    match l.txns.head? with
    | none => .upToDate
    | some first =>
      let highest := (l.txns.getLast?.map (·.lsn)).getD 0
      if highest < fromLsn then .upToDate
      else if fromLsn < first.lsn then .tooOld first.lsn
      else .frames ((l.txns.filter fun t => fromLsn ≤ t.lsn).take maxTxns)

end FrameLog

/-- The answer to a follower. -/
inductive SubscribeReply (T : Type) where
  | error (message : String)
  | needsBootstrap (reason : String)
  | frames (epoch : Nat) (txns : List (StreamTxn T))
  | upToDate
  deriving DecidableEq

/-- Answer a follower whose copy is of `epoch`, 0 for no copy, and that asks for
    frames from `fromLsn` on. -/
def serveSubscribe {T : Type} (currentEpoch : Option Nat) (frames : Option (FrameLog T))
    (shard : ShardId) (epoch fromLsn maxTxns : Nat) : SubscribeReply T :=
  match currentEpoch with
  | none =>
    .error ("this node is not capturing frames, so it has no stream to subscribe to " ++
      "(capture is off)")
  | some currentEpoch =>
    if epoch ≠ 0 ∧ epoch ≠ currentEpoch then
      .needsBootstrap (s!"follower is on epoch {epoch}, this node is on {currentEpoch}; a new " ++
        "epoch is a new stream whose positions cannot be compared to the old ones")
    else
      match frames with
      | none => .error "this node has no frame log, so it cannot serve followers"
      | some log =>
        match log.serve shard fromLsn (min (max maxTxns 1) 512) with
        | .frames txns => .frames currentEpoch txns
        | .upToDate => .upToDate
        | .tooOld lowest =>
          .needsBootstrap (s!"frames before LSN {lowest} are no longer retained; take a " ++
            "snapshot and resume from it")

variable {currentEpoch epoch : Nat}

theorem exists_needsBootstrap {T : Type} (log : FrameLog T) (shard : ShardId)
    (fromLsn maxTxns : Nat) (h0 : epoch ≠ 0) (hne : epoch ≠ currentEpoch) :
    ∃ reason, serveSubscribe (some currentEpoch) (some log) shard epoch fromLsn maxTxns =
      .needsBootstrap reason :=
  ⟨_, by rw [serveSubscribe, if_pos ⟨h0, hne⟩]⟩

theorem serveSubscribe_eq_frames {T : Type} {log : FrameLog T} {shard : ShardId}
    {fromLsn maxTxns e : Nat} {txns : List (StreamTxn T)}
    (h : serveSubscribe (some currentEpoch) (some log) shard epoch fromLsn maxTxns = .frames e txns) :
    e = currentEpoch ∧ log.serve shard fromLsn (min (max maxTxns 1) 512) = .frames txns := by
  unfold serveSubscribe at h
  simp only at h
  split_ifs at h
  cases hserved : log.serve shard fromLsn (min (max maxTxns 1) 512) with
  | frames served =>
    rw [hserved] at h
    obtain ⟨rfl, rfl⟩ := SubscribeReply.frames.inj h
    exact ⟨rfl, rfl⟩
  | upToDate | tooOld lowest =>
    rw [hserved] at h
    cases h

/-! ## What is retained -/

section Retained

variable {T : Type} {size : T → Nat} {budget : Nat}

theorem evict_suffix (txns : List (StreamTxn T)) (bytes : Nat) :
    (evict size budget txns bytes).txns <:+ txns ∧
      (txns ≠ [] → (evict size budget txns bytes).txns ≠ []) := by
  induction txns generalizing bytes with
  | nil => exact ⟨List.suffix_refl _, fun h => h⟩
  | cons old txns ih =>
    cases txns with
    | nil => exact ⟨List.suffix_refl _, fun h => h⟩
    | cons next rest =>
      rw [evict]
      split_ifs
      · obtain ⟨hsuf, hne⟩ := ih (bytes - size old.txn)
        exact ⟨hsuf.trans (List.suffix_cons _ _), fun _ => hne nofun⟩
      · exact ⟨List.suffix_refl _, fun h => h⟩

/-- What is retained after new transactions is an end of the old ones with them. -/
theorem accept_spec (log : FrameLog T) (size : T → Nat) (shard : ShardId)
    {txns : List (StreamTxn T)} (hne : txns ≠ []) :
    ∃ l, (log.accept size shard txns).shards.get? shard = some l ∧ l.txns ≠ [] ∧
      l.txns <:+ ((log.shards.get? shard).getD {}).txns ++ txns := by
  refine ⟨_, by rw [FrameLog.accept, OrdMap.get?_insert, if_pos rfl], ?_, (evict_suffix _ _).1⟩
  exact (evict_suffix _ _).2 (List.append_ne_nil_of_right_ne_nil _ hne)

theorem exists_positioned_of_suffix {first : Nat} {as : List T} {txns : List (StreamTxn T)}
    (h : txns <:+ positioned first as) :
    ∃ n ≤ as.length, txns = positioned (first + n) (as.drop n) := by
  induction as generalizing first with
  | nil =>
    obtain rfl := List.suffix_nil.1 h
    exact ⟨0, le_refl _, rfl⟩
  | cons a as ih =>
    rcases List.suffix_cons_iff.1 h with rfl | h
    · exact ⟨0, Nat.zero_le _, rfl⟩
    · obtain ⟨n, hn, rfl⟩ := ih h
      refine ⟨n + 1, Nat.succ_le_succ hn, ?_⟩
      rw [List.drop_succ_cons, Nat.add_right_comm, Nat.add_assoc]

theorem filter_positioned {first : Nat} (as : List T) {fromLsn : Nat} (h : first ≤ fromLsn) :
    (positioned first as).filter (fun t => fromLsn ≤ t.lsn) =
      positioned fromLsn (as.drop (fromLsn - first)) := by
  induction as generalizing first with
  | nil =>
    rw [List.drop_nil]
    rfl
  | cons a as ih =>
    rcases Nat.eq_or_lt_of_le h with rfl | hlt
    · rw [Nat.sub_self, List.drop_zero]
      exact List.filter_eq_self.2 fun t ht => decide_eq_true (lsn_of_mem_positioned ht).1
    · have hdrop : fromLsn - first = fromLsn - (first + 1) + 1 := by omega
      rw [positioned, List.filter_cons_of_neg (by simpa using hlt), ih hlt, hdrop,
        List.drop_succ_cons]

/-- Serving from consecutive transactions: nothing new, gone, or exactly the
    transactions from the position on. -/
theorem serve_positioned {log : FrameLog T} {shard : ShardId} {l : ShardLog T} {first : Nat}
    {as : List T} (hl : log.shards.get? shard = some l) (htxns : l.txns = positioned first as)
    (hne : as ≠ []) (fromLsn maxTxns : Nat) :
    log.serve shard fromLsn maxTxns =
      if first + as.length ≤ fromLsn then .upToDate
      else if fromLsn < first then .tooOld first
      else .frames (positioned fromLsn ((as.drop (fromLsn - first)).take maxTxns)) := by
  have hpos : 0 < as.length := List.length_pos_iff.2 hne
  obtain ⟨a, hhead⟩ := exists_head?_positioned first hne
  obtain ⟨b, hlast⟩ := exists_getLast?_positioned first hne
  rw [FrameLog.serve, hl]
  simp only [htxns, hhead, hlast, Option.map_some, Option.getD_some]
  by_cases hup : first + as.length ≤ fromLsn
  · rw [if_pos (by omega), if_pos hup]
  · rw [if_neg (by omega), if_neg hup]
    by_cases hold : fromLsn < first
    · rw [if_pos hold, if_pos hold]
    · rw [if_neg hold, if_neg hold, filter_positioned as (not_lt.1 hold), positioned_take]

end Retained

end Shardlite.Replication
