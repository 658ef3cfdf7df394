/-
  Shardlite.Replication.Ack

  Quorum acknowledgement: a primary records how far each subscriber is known to
  hold each shard, and a writer waits until a majority holds what it wrote.  There
  is no acknowledgement message; asking for frames from a position on counts as
  holding everything below it.
-/
import Shardlite.Replication.Follower
import Shardlite.Lib.Machine
import Shardlite.Lib.Quorum

namespace Shardlite.Replication

/-! ## The tracker -/

abbrev AckKey := ShardId ×ₗ NodeId

/-- The primary's record of what its followers hold. -/
structure AckTracker where
  /-- Total voting members, this node included. -/
  voters : Nat
  howLong : Duration
  /-- The highest LSN each node is known to hold of each shard. -/
  positions : OrdMap AckKey Nat := .empty
  confirmed : Nat := 0
  timedOut : Nat := 0
  waitedUs : Nat := 0

/-- How one turn of waiting for a quorum ends. -/
inductive WaitTurn where
  | confirmed
  /-- Committed here, not confirmed elsewhere. -/
  | notReplicated (shard : String) (lsn holders needed : Nat)
  | wait (left : Duration)
  deriving DecidableEq, Repr

namespace AckTracker

def new (voters : Nat) (howLong : Duration) : AckTracker := { voters := max voters 1, howLong }

variable (t : AckTracker)

/-- Members that must hold a write before it is acknowledged, this node included. -/
def quorum : Nat := t.voters / 2 + 1

/-- Record that `node` holds everything up to and including `lsn`; a report never
    moves backwards. -/
def record (node : NodeId) (shard : ShardId) (lsn : Nat) : AckTracker :=
  let entry := (t.positions.get? (toLex (shard, node))).getD 0
  { t with positions := t.positions.insert (toLex (shard, node)) (max entry lsn) }

/-- The recorded positions at or past `lsn` of `shard`. -/
def holding (shard : ShardId) (lsn : Nat) : List (AckKey × Nat) :=
  t.positions.entries.filter fun e => (ofLex e.1).1 = shard ∧ lsn ≤ e.2

/-- How many members hold `lsn`, counting this node, which by definition does. -/
def holders (shard : ShardId) (lsn : Nat) : Nat := (t.holding shard lsn).length + 1

/-- One turn of `wait_for_quorum`, `elapsed` after it was called. -/
def waitForQuorum (shard : ShardId) (lsn : Nat) (elapsed : Duration) : WaitTurn × AckTracker :=
  let needed := t.quorum
  let have_ := t.holders shard lsn
  let waitedUs := t.waitedUs + elapsed / 1000
  if needed ≤ have_ then (.confirmed, { t with confirmed := t.confirmed + 1, waitedUs })
  else if elapsed < t.howLong then (.wait (t.howLong - elapsed), t)
  else
    (.notReplicated (shardName shard) lsn have_ needed,
      { t with timedOut := t.timedOut + 1, waitedUs })

/-- The highest LSN a majority is known to hold, without waiting: of the followers'
    positions, largest first, the one that makes a majority with this node. -/
def quorumLsn (shard : ShardId) : Nat :=
  let held := ((t.positions.entries.filter fun e => (ofLex e.1).1 = shard).map Prod.snd)
    |>.insertionSort (· ≥ ·)
  let followersNeeded := t.quorum - 1
  if followersNeeded = 0 then u64Size - 1 else held[followersNeeded - 1]?.getD 0

/-- The positions reported to a tracker, as `(node, shard, lsn)`. -/
def recordAll (reports : List (NodeId × ShardId × Nat)) : AckTracker :=
  reports.foldl (fun t r => t.record r.1 r.2.1 r.2.2) t

/-- The record a subscription leaves: a node that names itself and a position. -/
def onSubscribe (node : NodeId) (shard : ShardId) (fromLsn : Nat) : AckTracker :=
  if node ≠ 0 ∧ 0 < fromLsn then t.record node shard (fromLsn - 1) else t

variable {t} {shard s : ShardId} {node n : NodeId} {lsn : Nat}

theorem get?_record : (t.record node shard lsn).positions.get? (toLex (s, n)) =
    if s = shard ∧ n = node then
      some (max ((t.positions.get? (toLex (shard, node))).getD 0) lsn)
    else t.positions.get? (toLex (s, n)) := by
  rw [record, OrdMap.get?_insert]
  congr 1
  rw [toLex_inj, Prod.mk.injEq]

theorem confirmed_iff (elapsed : Duration) :
    (t.waitForQuorum shard lsn elapsed).1 = .confirmed ↔ t.quorum ≤ t.holders shard lsn := by
  unfold waitForQuorum
  dsimp only
  split_ifs with hneeded hleft
  · exact iff_of_true rfl hneeded
  · exact iff_of_false not_false hneeded
  · exact iff_of_false not_false hneeded

theorem mem_holding : n ∈ (t.holding shard lsn).map (fun e => (ofLex e.1).2) ↔
    ∃ held, t.positions.get? (toLex (shard, n)) = some held ∧ lsn ≤ held := by
  constructor
  · intro h
    obtain ⟨e, he, rfl⟩ := List.mem_map.1 h
    obtain ⟨hmem, hcond⟩ := List.mem_filter.1 he
    obtain ⟨rfl, hlsn⟩ := of_decide_eq_true hcond
    exact ⟨e.2, OrdMap.get?_eq_some_iff.2 hmem, hlsn⟩
  · rintro ⟨held, hget, hlsn⟩
    refine List.mem_map.2 ⟨(toLex (shard, n), held), List.mem_filter.2 ⟨?_, ?_⟩, rfl⟩
    · exact OrdMap.get?_eq_some_iff.1 hget
    · exact decide_eq_true ⟨rfl, hlsn⟩

theorem nodup_holding (shard : ShardId) (lsn : Nat) :
    ((t.holding shard lsn).map fun e => (ofLex e.1).2).Nodup := by
  rw [List.Nodup, List.pairwise_map]
  have hsorted : (t.holding shard lsn).Pairwise fun a b => a.1 < b.1 := t.positions.sorted.filter _
  refine hsorted.imp_of_mem fun {a b} ha hb hlt hnode => ?_
  have hshard : ∀ e ∈ t.holding shard lsn, (ofLex e.1).1 = shard :=
    fun e he => (of_decide_eq_true (List.mem_filter.1 he).2).1
  have hkey : ofLex a.1 = ofLex b.1 := Prod.ext ((hshard a ha).trans (hshard b hb).symm) hnode
  exact absurd hlt (ofLex.injective hkey ▸ lt_irrefl _)

/-- **Counting.**  If every node recorded at or past `lsn` is another voter with
    property `P`, and this node has it too, a confirmed wait means a majority has. -/
theorem majority_of_confirmed {voters : Finset NodeId} {self : NodeId} {P : NodeId → Prop}
    [DecidablePred P] (hvoters : t.voters = max voters.card 1) (hself : self ∈ voters)
    (hP : P self)
    (hrecorded : ∀ n held, t.positions.get? (toLex (shard, n)) = some held → lsn ≤ held →
      n ∈ voters ∧ n ≠ self ∧ P n)
    {elapsed : Duration} (hok : (t.waitForQuorum shard lsn elapsed).1 = .confirmed) :
    Quorum.Majority (voters.filter P) voters := by
  have hcount := (confirmed_iff elapsed).1 hok
  have hcard : voters.card = t.voters := by
    have := Finset.card_pos.2 ⟨self, hself⟩
    omega
  -- The nodes counted are distinct voters, none of them this node.
  let counted := ((t.holding shard lsn).map fun e => (ofLex e.1).2).toFinset
  have hcounted : counted.card = (t.holding shard lsn).length := by
    rw [List.toFinset_card_of_nodup (nodup_holding shard lsn), List.length_map]
  have hmem : ∀ n ∈ counted, n ∈ voters ∧ n ≠ self ∧ P n := by
    intro n hn
    obtain ⟨held, hget, hle⟩ := mem_holding.1 (List.mem_toFinset.1 hn)
    exact hrecorded n held hget hle
  have hsub : insert self counted ⊆ voters.filter P ∩ voters := by
    intro n hn
    rw [Finset.mem_inter, Finset.mem_filter]
    rcases Finset.mem_insert.1 hn with rfl | hn
    · exact ⟨⟨hself, hP⟩, hself⟩
    · obtain ⟨hv, -, hp⟩ := hmem n hn
      exact ⟨⟨hv, hp⟩, hv⟩
  have hnew : self ∉ counted := fun h => (hmem self h).2.1 rfl
  have hle := Finset.card_le_card hsub
  rw [Finset.card_insert_of_notMem hnew, hcounted] at hle
  unfold Quorum.Majority
  unfold quorum holders at hcount
  omega

/-! ### Waiting against asking -/

/-- In a list that falls, entry `n` reaches a positive `x` iff more than `n` entries do. -/
theorem le_getElem?_iff_countP {l : List Nat} (hl : l.Pairwise (· ≥ ·)) {x : Nat} (hx : 0 < x)
    (n : Nat) : x ≤ l[n]?.getD 0 ↔ n < l.countP (x ≤ ·) := by
  induction l generalizing n with
  | nil =>
    show x ≤ 0 ↔ n < 0
    omega
  | cons a l ih =>
    obtain ⟨hhead, htail⟩ := List.pairwise_cons.1 hl
    by_cases ha : x ≤ a
    · rw [List.countP_cons_of_pos (by simpa using ha)]
      cases n with
      | zero => exact iff_of_true ha (Nat.succ_pos _)
      | succ n => exact (ih htail n).trans Nat.succ_lt_succ_iff.symm
    · -- nothing after a smaller head reaches `x`
      have hnone : l.countP (x ≤ ·) = 0 := by
        refine List.countP_eq_zero.2 fun b hb => ?_
        have hle := hhead b hb
        simp only [decide_eq_true_eq]
        omega
      have hlow : ¬ x ≤ l[n - 1]?.getD 0 := by
        rw [ih htail, hnone]
        exact Nat.not_lt_zero _
      rw [List.countP_cons_of_neg (by simpa using ha), hnone]
      refine iff_of_false ?_ (Nat.not_lt_zero _)
      cases n with
      | zero => exact ha
      | succ n => exact hlow

theorem le_quorumLsn_iff (hmore : t.quorum - 1 ≠ 0) (hpos : 0 < lsn) :
    lsn ≤ t.quorumLsn shard ↔ t.quorum ≤ t.holders shard lsn := by
  let all := (t.positions.entries.filter fun e => (ofLex e.1).1 = shard).map Prod.snd
  have hcount : (t.holding shard lsn).length = (all.insertionSort (· ≥ ·)).countP (lsn ≤ ·) := by
    rw [(List.perm_insertionSort _ all).countP_eq, List.countP_map, List.countP_filter,
      holding, ← List.countP_eq_length_filter]
    refine List.countP_congr fun e _ => ?_
    simp [and_comm]
  have horder := le_getElem?_iff_countP (List.pairwise_insertionSort (· ≥ ·) all) hpos
    (t.quorum - 1 - 1)
  unfold quorumLsn holders
  rw [if_neg hmore, hcount]
  refine horder.trans ?_
  omega

theorem holders_record (node : NodeId) (s : ShardId) (l : Nat) :
    t.holders shard lsn ≤ (t.record node s l).holders shard lsn := by
  have hsub : (t.holding shard lsn).map (fun e => (ofLex e.1).2) ⊆
      ((t.record node s l).holding shard lsn).map fun e => (ofLex e.1).2 := by
    intro n hn
    obtain ⟨held, hget, hle⟩ := mem_holding.1 hn
    rw [mem_holding, get?_record]
    split_ifs with hsame
    · obtain ⟨rfl, rfl⟩ := hsame
      rw [hget]
      exact ⟨_, rfl, hle.trans (le_max_left _ _)⟩
    · exact ⟨held, hget, hle⟩
  have hle := (List.subperm_of_subset (nodup_holding shard lsn) hsub).length_le
  rw [List.length_map, List.length_map] at hle
  exact Nat.succ_le_succ hle

theorem quorumLsn_record (node : NodeId) (s : ShardId) (l : Nat) :
    t.quorumLsn shard ≤ (t.record node s l).quorumLsn shard := by
  by_cases hmore : t.quorum - 1 = 0
  · exact ((if_pos hmore).trans (if_pos hmore).symm).le
  · rcases Nat.eq_zero_or_pos (t.quorumLsn shard) with hzero | hpos
    · exact hzero.le.trans (Nat.zero_le _)
    · have hnow := (le_quorumLsn_iff hmore hpos).1 le_rfl
      exact (le_quorumLsn_iff (t := t.record node s l) hmore hpos).2
        (hnow.trans (holders_record node s l))

theorem quorumLsn_recordAll (reports : List (NodeId × ShardId × Nat)) :
    t.quorumLsn shard ≤ (t.recordAll reports).quorumLsn shard := by
  induction reports generalizing t with
  | nil => exact le_rfl
  | cons r reports ih => exact (quorumLsn_record ..).trans ih

/-- **Waiting against asking.**  Whatever was reported, in whatever order, a wait
    for a positive LSN is over at once iff the LSN is at most the one a majority is
    said to hold; and further reports never lower that one. -/
theorem confirmed_iff_le_quorumLsn (voters : Nat) (howLong elapsed : Duration)
    (reports more : List (NodeId × ShardId × Nat)) (shard : ShardId) (lsn : Nat)
    (hpos : 0 < lsn) (hfits : lsn < u64Size) :
    ((((new voters howLong).recordAll reports).waitForQuorum shard lsn elapsed).1 = .confirmed ↔
        lsn ≤ ((new voters howLong).recordAll reports).quorumLsn shard) ∧
      ((new voters howLong).recordAll reports).quorumLsn shard ≤
        ((new voters howLong).recordAll (reports ++ more)).quorumLsn shard := by
  refine ⟨(confirmed_iff elapsed).trans ?_, ?_⟩
  · by_cases hmore : ((new voters howLong).recordAll reports).quorum - 1 = 0
    · -- a node that is its own majority never waits
      refine iff_of_true ?_ (le_of_le_of_eq (Nat.le_sub_one_of_lt hfits) (if_pos hmore).symm)
      exact (Nat.sub_le_iff_le_add.1 hmore.le).trans (Nat.le_add_left _ _)
    · exact (le_quorumLsn_iff hmore hpos).symm
  · rw [show (new voters howLong).recordAll (reports ++ more) =
      ((new voters howLong).recordAll reports).recordAll more from List.foldl_append]
    exact quorumLsn_recordAll more

/-- Of five voters two followers are needed; the second highest report counts. -/
theorem confirmed_iff_le_quorumLsn_five :
    let t := (new 5 1000).recordAll [(2, 0, 7), (3, 0, 4), (2, 0, 5), (4, 1, 9)]
    ((t.waitForQuorum 0 4 0).1 = .confirmed ∧ t.quorumLsn 0 = 4) ∧
      t.quorumLsn 0 ≤ ((new 5 1000).recordAll
        ([(2, 0, 7), (3, 0, 4), (2, 0, 5), (4, 1, 9)] ++ [(3, 0, 1)])).quorumLsn 0 := by
  have h := confirmed_iff_le_quorumLsn 5 1000 0 [(2, 0, 7), (3, 0, 4), (2, 0, 5), (4, 1, 9)]
    [(3, 0, 1)] 0 4 (by decide) (by decide)
  exact ⟨⟨h.1.2 (by decide +kernel), by decide +kernel⟩, h.2⟩

end AckTracker

/-! ## A primary and its subscribers -/

structure AckConfig (T : Type) where
  shard : ShardId
  retention : Retention T
  perShardBytes : Nat
  howLong : Duration
  primary : NodeId
  voters : Finset NodeId
  primary_mem : primary ∈ voters

/-- A primary with the stream of one shard, and every other node's copy of it. -/
structure AckWorld (T : Type) where
  positions : Positions
  /-- What the primary's position file holds. -/
  file : Positions
  log : FrameLog T
  acks : AckTracker
  /-- What was committed in each epoch; only the present one can grow. -/
  stream : Nat → List T
  /-- The durable copy each node has of the stream its position names: which of its
      transactions the file contains. -/
  copies : NodeId → Copy (List T)

inductive AckAct (T : Type) where
  | write (txn : T)
  /-- The primary's process dies and starts again in a new epoch. -/
  | crash
  /-- The primary stops cleanly and goes on in its epoch. -/
  | shutdown
  /-- A follower asks for what comes after its copy and applies the answer. -/
  | sync (node : NodeId) (maxTxns : Nat)
  /-- A follower installs a snapshot. -/
  | bootstrap (node : NodeId)
  /-- Any other subscription request. -/
  | request (node : NodeId) (shard : ShardId) (epoch fromLsn maxTxns : Nat)

/-- The request is the acknowledgement: it is recorded before it is served. -/
def AckWorld.subscribe {T : Type} (w : AckWorld T) (node : NodeId) (shard : ShardId)
    (epoch fromLsn maxTxns : Nat) :
    SubscribeReply T × AckWorld T :=
  (serveSubscribe (some w.positions.epoch) (some w.log) shard epoch fromLsn maxTxns,
    { w with acks := w.acks.onSubscribe node shard fromLsn })

namespace AckConfig

variable {T : Type} (cfg : AckConfig T)

/-- The first start of the primary; no node has a copy. -/
def init : AckWorld T where
  positions := .loadOrInit none
  file := .loadOrInit none
  log := { perShardBytes := cfg.perShardBytes }
  acks := .new cfg.voters.card cfg.howLong
  stream _ := []
  copies _ := ⟨[], {}⟩

variable (w : AckWorld T)

/-- A start of the primary's process on the position file. -/
def start (file : Positions) : AckWorld T :=
  let positions := Positions.loadOrInit (some file)
  { w with
    positions
    file := positions
    log := { perShardBytes := cfg.perShardBytes }
    acks := .new cfg.voters.card cfg.howLong }

/-- A batch commits, is captured and reaches the frame log. -/
def write (txn : T) : AckWorld T :=
  let d := drainCapture cfg.retention ((({} : WalCapture T)).emitCommit cfg.retention txn)
    w.positions cfg.shard .accepts
  { w with
    positions := d.positions
    log := w.log.accept cfg.retention.size cfg.shard d.delivered
    stream := Function.update w.stream w.positions.epoch (w.stream w.positions.epoch ++ [txn]) }

/-- One turn of `sync_shard`, short of a bootstrap. -/
def sync (node : NodeId) (maxTxns : Nat) : AckWorld T :=
  let c := w.copies node
  let (reply, w) :=
    w.subscribe node cfg.shard c.position.epoch (c.position.appliedLsn + 1) maxTxns
  match reply with
  | .frames epoch txns =>
    match c.apply (fun d t => d ++ [t]) epoch txns with
    | .ok c' => { w with copies := Function.update w.copies node c' }
    | .error _ => w
  | _ => w

/-- A follower takes a snapshot of the stream as it stands. -/
def bootstrap (node : NodeId) : AckWorld T :=
  let epoch := w.positions.epoch
  let lsn := w.positions.lastAllocated cfg.shard
  { w with
    copies := Function.update w.copies node
      ((w.copies node).installSnapshot epoch lsn (w.stream epoch)) }

def step : AckAct T → AckWorld T
  | .write txn => cfg.write w txn
  | .crash => cfg.start w w.file
  | .shutdown => cfg.start w w.positions.markClean
  | .sync node maxTxns => cfg.sync w node maxTxns
  | .bootstrap node => cfg.bootstrap w node
  | .request node shard epoch fromLsn maxTxns =>
    (w.subscribe node shard epoch fromLsn maxTxns).2

/-- `node` durably holds the primary's stream of the present epoch through `lsn`. -/
def Holds (lsn : Nat) (node : NodeId) : Prop :=
  if node = cfg.primary then lsn ≤ (w.stream w.positions.epoch).length
  else
    (w.copies node).position.epoch = w.positions.epoch ∧
      lsn ≤ (w.copies node).position.appliedLsn ∧
      (w.copies node).image.take lsn = (w.stream w.positions.epoch).take lsn

instance [DecidableEq T] (lsn : Nat) : DecidablePred (cfg.Holds w lsn) :=
  fun _ => by unfold Holds; infer_instance

/-- Who asks from a position that says something is another voter, and its copy is
    of the primary's epoch and reaches that far. -/
def Honest (node : NodeId) (fromLsn : Nat) : Prop :=
  node ≠ 0 → 1 < fromLsn →
    node ∈ cfg.voters ∧ node ≠ cfg.primary ∧
      (w.copies node).position.epoch = w.positions.epoch ∧
      fromLsn ≤ (w.copies node).position.appliedLsn + 1

instance (node : NodeId) (fromLsn : Nat) : Decidable (cfg.Honest w node fromLsn) :=
  inferInstanceAs (Decidable (_ → _ → _))

/-- Every request for the shard is honest about the copy it comes from. -/
def Careful : AckAct T → Prop
  | .sync node _ => cfg.Honest w node ((w.copies node).position.appliedLsn + 1)
  | .request node shard _ fromLsn _ => shard = cfg.shard → cfg.Honest w node fromLsn
  | _ => True

instance (a : AckAct T) : Decidable (cfg.Careful w a) := by
  unfold Careful
  split <;> infer_instance

end AckConfig

end Shardlite.Replication
