/-
  Shardlite.Replication.Retention

  What a frame log holds after any sequence of accepts, and what it answers
  then.  The transactions of a shard that are still there are the newest ones
  accepted, in order and without a gap; the byte counter is their size; and a
  subscription is served, sent to bootstrap or told that it is level, according
  to where its position lies.
-/
import Shardlite.Replication.FrameLog

namespace Shardlite.Replication

variable {T : Type}

/-- Transactions handed over for a shard in one call. -/
structure Accept (T : Type) where
  shard : ShardId
  txns : List (StreamTxn T)
  deriving DecidableEq

/-- Consecutive positions, from any first one on. -/
def Dense (txns : List (StreamTxn T)) : Prop :=
  ∃ first, txns = positioned first (txns.map (·.txn))

/-- All that was accepted for a shard, oldest first. -/
def acceptedFor (shard : ShardId) (accepts : List (Accept T)) : List (StreamTxn T) :=
  (accepts.filter fun a => a.shard = shard).flatMap (·.txns)

namespace FrameLog

def new (totalBytes shardCount : Nat) : FrameLog T :=
  { perShardBytes := perShard totalBytes shardCount }

def acceptAll (size : T → Nat) (log : FrameLog T) (accepts : List (Accept T)) : FrameLog T :=
  accepts.foldl (fun log a => log.accept size a.shard a.txns) log

/-- The log of one shard; nothing was ever accepted for an absent one. -/
def retained (log : FrameLog T) (shard : ShardId) : ShardLog T := (log.shards.get? shard).getD {}

variable {size : T → Nat} {log : FrameLog T} {shard : ShardId} {accepted : List (StreamTxn T)}

/-! ## One accept -/

/-- The transactions retained are the newest accepted, and they are counted. -/
structure Retains (size : T → Nat) (log : FrameLog T) (shard : ShardId)
    (accepted : List (StreamTxn T)) : Prop where
  suffix : (log.retained shard).txns <:+ accepted
  bytes : (log.retained shard).bytes = ((log.retained shard).txns.map fun t => size t.txn).sum
  budget : (log.retained shard).bytes ≤ log.perShardBytes ∨ (log.retained shard).txns.length = 1

/-- Eviction keeps the counter right, and stops inside the budget or at one
    transaction. -/
theorem evict_bytes (budget : Nat) (txns : List (StreamTxn T)) (hne : txns ≠ []) :
    ∀ {bytes : Nat}, bytes = (txns.map fun t => size t.txn).sum →
      (evict size budget txns bytes).bytes =
        ((evict size budget txns bytes).txns.map fun t => size t.txn).sum ∧
      ((evict size budget txns bytes).bytes ≤ budget ∨
        (evict size budget txns bytes).txns.length = 1) := by
  induction txns with
  | nil => exact absurd rfl hne
  | cons old txns ih =>
    intro bytes hbytes
    cases txns with
    | nil => exact ⟨hbytes, .inr rfl⟩
    | cons next rest =>
      rw [evict]
      split_ifs with hover
      · apply ih (List.cons_ne_nil _ _)
        rw [hbytes, List.map_cons, List.sum_cons, Nat.add_sub_cancel_left]
      · exact ⟨hbytes, .inl (Nat.le_of_not_lt hover)⟩

@[simp] theorem accept_perShardBytes (log : FrameLog T) (size : T → Nat) (shard : ShardId)
    (txns : List (StreamTxn T)) : (log.accept size shard txns).perShardBytes = log.perShardBytes :=
  rfl

theorem retained_accept_self (log : FrameLog T) (shard : ShardId) (txns : List (StreamTxn T)) :
    (log.accept size shard txns).retained shard =
      evict size log.perShardBytes ((log.retained shard).txns ++ txns)
        ((log.retained shard).bytes + (txns.map fun t => size t.txn).sum) := by
  rw [retained, accept, OrdMap.get?_insert, if_pos rfl]
  rfl

theorem retained_accept_of_ne {other : ShardId} (h : other ≠ shard) (log : FrameLog T)
    (size : T → Nat) (txns : List (StreamTxn T)) :
    (log.accept size shard txns).retained other = log.retained other := by
  rw [retained, accept, OrdMap.get?_insert, if_neg h]
  rfl

theorem Retains.accept_self (h : Retains size log shard accepted) {txns : List (StreamTxn T)}
    (hne : txns ≠ []) :
    Retains size (log.accept size shard txns) shard (accepted ++ txns) := by
  have hall : (log.retained shard).txns ++ txns ≠ [] := List.append_ne_nil_of_right_ne_nil _ hne
  have hbytes : (log.retained shard).bytes + (txns.map fun t => size t.txn).sum =
      (((log.retained shard).txns ++ txns).map fun t => size t.txn).sum := by
    rw [h.bytes, List.map_append, List.sum_append]
  obtain ⟨hcount, hbudget⟩ := evict_bytes log.perShardBytes _ hall hbytes
  obtain ⟨before, hbefore⟩ := h.suffix
  have hsuffix : (log.retained shard).txns ++ txns <:+ accepted ++ txns :=
    ⟨before, by rw [← List.append_assoc, hbefore]⟩
  constructor
  · rw [retained_accept_self]
    exact (evict_suffix _ _).1.trans hsuffix
  · rw [retained_accept_self]
    exact hcount
  · rw [retained_accept_self, accept_perShardBytes]
    exact hbudget

/-! ## Every sequence of accepts -/

theorem acceptAll_append (log : FrameLog T) (accepts : List (Accept T)) (a : Accept T) :
    acceptAll size log (accepts ++ [a]) =
      (acceptAll size log accepts).accept size a.shard a.txns := by
  rw [acceptAll, List.foldl_append]
  rfl

theorem acceptedFor_append_self (accepts : List (Accept T)) (a : Accept T) :
    acceptedFor a.shard (accepts ++ [a]) = acceptedFor a.shard accepts ++ a.txns := by
  simp [acceptedFor]

theorem acceptedFor_append_of_ne (accepts : List (Accept T)) {a : Accept T}
    (h : shard ≠ a.shard) : acceptedFor shard (accepts ++ [a]) = acceptedFor shard accepts := by
  simp [acceptedFor, h.symm]

theorem retains_acceptAll (size : T → Nat) (log : FrameLog T) (hempty : log.shards = .empty)
    (accepts : List (Accept T)) (hne : ∀ a ∈ accepts, a.txns ≠ []) (shard : ShardId) :
    Retains size (acceptAll size log accepts) shard (acceptedFor shard accepts) := by
  induction accepts using List.reverseRecOn with
  | nil =>
    have hnone : log.retained shard = {} := by
      rw [retained, hempty]
      rfl
    show Retains size log shard []
    constructor
    · rw [hnone]
    · rw [hnone]
      exact List.sum_nil.symm
    · rw [hnone]
      exact .inl (Nat.zero_le _)
  | append_singleton accepts a ih =>
    have hprev := ih fun b hb => hne b (List.mem_append_left _ hb)
    have hlast : a.txns ≠ [] := hne a (List.mem_append_right _ (List.mem_singleton_self a))
    rw [acceptAll_append]
    by_cases hshard : shard = a.shard
    · subst hshard
      rw [acceptedFor_append_self]
      exact hprev.accept_self hlast
    · have hsame := retained_accept_of_ne hshard (acceptAll size log accepts) size a.txns
      rw [acceptedFor_append_of_ne accepts hshard]
      constructor
      · rw [hsame]
        exact hprev.suffix
      · rw [hsame]
        exact hprev.bytes
      · rw [hsame, accept_perShardBytes]
        exact hprev.budget

theorem exists_retained (size : T → Nat) (log : FrameLog T) (accepts : List (Accept T))
    (hne : ∀ a ∈ accepts, a.txns ≠ []) (hfed : ∃ a ∈ accepts, a.shard = shard) :
    ∃ l, (acceptAll size log accepts).shards.get? shard = some l ∧ l.txns ≠ [] := by
  induction accepts using List.reverseRecOn with
  | nil =>
    obtain ⟨a, ha, -⟩ := hfed
    cases ha
  | append_singleton accepts a ih =>
    have hlast : a.txns ≠ [] := hne a (List.mem_append_right _ (List.mem_singleton_self a))
    rw [acceptAll_append]
    by_cases hshard : shard = a.shard
    · subst hshard
      obtain ⟨l, hl, hkept, -⟩ := accept_spec (acceptAll size log accepts) size a.shard hlast
      exact ⟨l, hl, hkept⟩
    · have hearlier : ∃ b ∈ accepts, b.shard = shard := by
        obtain ⟨b, hb, hbs⟩ := hfed
        rcases List.mem_append.1 hb with hb | hb
        · exact ⟨b, hb, hbs⟩
        · rw [List.mem_singleton.1 hb] at hbs
          exact absurd hbs.symm hshard
      obtain ⟨l, hl, hkept⟩ := ih (fun b hb => hne b (List.mem_append_left _ hb)) hearlier
      refine ⟨l, ?_, hkept⟩
      rw [accept, OrdMap.get?_insert, if_neg hshard]
      exact hl

/-! ## Answers -/

/-- The answer to a subscription, by where its position lies. -/
structure Answers (log : FrameLog T) (shard : ShardId) (accepted : List (StreamTxn T))
    (fromLsn maxTxns : Nat) : Prop where
  /-- Consecutive transactions from exactly there, out of those retained. -/
  frames : (∃ t ∈ (log.retained shard).txns, t.lsn = fromLsn) →
    ∃ txns, log.serve shard fromLsn maxTxns = .frames (positioned fromLsn txns) ∧
      txns ≠ [] ∧ txns.length ≤ maxTxns ∧
      positioned fromLsn txns <:+: (log.retained shard).txns
  tooOld : (∃ lowest, log.serve shard fromLsn maxTxns = .tooOld lowest) ↔
    ∀ t ∈ (log.retained shard).txns, fromLsn < t.lsn
  upToDate : log.serve shard fromLsn maxTxns = .upToDate ↔ ∀ t ∈ accepted, t.lsn < fromLsn

variable {first lsn : Nat} {as : List T}

theorem forall_lt_lsn_iff (hne : as ≠ []) :
    (∀ t ∈ positioned first as, lsn < t.lsn) ↔ lsn < first := by
  constructor
  · intro h
    obtain ⟨a, as, rfl⟩ := List.exists_cons_of_ne_nil hne
    exact h ⟨first, a⟩ List.mem_cons_self
  · intro h t ht
    have := lsn_of_mem_positioned ht
    omega

theorem forall_lsn_lt_iff (hne : as ≠ []) :
    (∀ t ∈ positioned first as, t.lsn < lsn) ↔ first + as.length ≤ lsn := by
  have hpos : 0 < as.length := List.length_pos_iff.2 hne
  constructor
  · intro h
    obtain ⟨b, hlast⟩ := exists_getLast?_positioned first hne
    have hlt : first + as.length - 1 < lsn := h _ (List.mem_of_getLast? hlast)
    omega
  · intro h t ht
    have := lsn_of_mem_positioned ht
    omega

theorem positioned_infix {fromLsn : Nat} (as : List T) (n : Nat) (hle : first ≤ fromLsn)
    (hlt : fromLsn ≤ first + as.length) :
    positioned fromLsn ((as.drop (fromLsn - first)).take n) <:+: positioned first as := by
  have hsplit : as = as.take (fromLsn - first) ++ as.drop (fromLsn - first) :=
    (List.take_append_drop _ _).symm
  have hlen : first + (as.take (fromLsn - first)).length = fromLsn := by
    rw [List.length_take]
    omega
  have hwhole : positioned first as =
      positioned first (as.take (fromLsn - first)) ++
        positioned fromLsn (as.drop (fromLsn - first)) := by
    conv_lhs => rw [hsplit]
    rw [positioned_append, hlen]
  rw [hwhole, ← positioned_take]
  exact (List.take_prefix _ _).isInfix.trans (List.suffix_append _ _).isInfix

/-- A log whose retained transactions are a non-empty end of a dense stream
    answers by position. -/
theorem answers_of_suffix {l : ShardLog T} (hl : log.shards.get? shard = some l)
    (hne : l.txns ≠ []) (hsuffix : l.txns <:+ accepted) (hdense : Dense accepted)
    (fromLsn : Nat) {maxTxns : Nat} (hmax : 0 < maxTxns) :
    Answers log shard accepted fromLsn maxTxns := by
  obtain ⟨start, haccepted⟩ := hdense
  generalize accepted.map (·.txn) = all at haccepted
  subst haccepted
  obtain ⟨n, hn, htxns⟩ := exists_positioned_of_suffix hsuffix
  have hdrop : all.drop n ≠ [] := by
    intro hnil
    rw [htxns, hnil] at hne
    exact hne rfl
  have hall : all ≠ [] := by
    rintro rfl
    rw [List.drop_nil] at hdrop
    exact hdrop rfl
  have hpos : 0 < (all.drop n).length := List.length_pos_iff.2 hdrop
  -- both streams end at the same position
  have hend : start + n + (all.drop n).length = start + all.length := by
    rw [List.length_drop]
    omega
  have hserve := serve_positioned hl htxns hdrop fromLsn maxTxns
  have hretained : (log.retained shard).txns = positioned (start + n) (all.drop n) := by
    rw [retained, hl, Option.getD_some, htxns]
  constructor
  · rintro ⟨t, ht, rfl⟩
    rw [hretained] at ht
    obtain ⟨hlow, hhigh⟩ := lsn_of_mem_positioned ht
    refine ⟨_, by rw [hserve, if_neg (by omega), if_neg (by omega)], ?_, List.length_take_le _ _, ?_⟩
    · rw [← List.length_pos_iff, List.length_take, List.length_drop]
      omega
    · rw [hretained]
      exact positioned_infix _ _ hlow (by omega)
  · rw [hretained, forall_lt_lsn_iff hdrop, hserve]
    constructor
    · rintro ⟨lowest, h⟩
      split_ifs at h with hup hold
      exact hold
    · intro hold
      exact ⟨_, by rw [if_neg (by omega), if_pos hold]⟩
  · rw [forall_lsn_lt_iff hall, ← hend, hserve]
    constructor
    · intro h
      split_ifs at h with hup
      exact hup
    · intro hup
      rw [if_pos hup]

/-- **A frame log holds the newest transactions accepted and answers by
    position**, after every sequence of non-empty accepts with dense positions
    and under every byte budget. -/
theorem frameLog_sound (size : T → Nat) (totalBytes shardCount : Nat) (accepts : List (Accept T))
    (hne : ∀ a ∈ accepts, a.txns ≠ []) (hdense : ∀ shard, Dense (acceptedFor shard accepts))
    (shard : ShardId) :
    Retains size (acceptAll size (new totalBytes shardCount) accepts) shard
      (acceptedFor shard accepts) ∧
    (acceptAll size (new totalBytes shardCount) accepts).perShardBytes =
      max (totalBytes / max shardCount 1) (64 * 1024) ∧
    ((∃ a ∈ accepts, a.shard = shard) → ∀ fromLsn maxTxns, 0 < maxTxns →
      Answers (acceptAll size (new totalBytes shardCount) accepts) shard
        (acceptedFor shard accepts) fromLsn maxTxns) := by
  have hretains := retains_acceptAll size (new totalBytes shardCount) rfl accepts hne shard
  refine ⟨hretains, ?_, ?_⟩
  · clear hne hdense hretains
    induction accepts using List.reverseRecOn with
    | nil => rfl
    | append_singleton accepts a ih => rw [acceptAll_append, accept_perShardBytes, ih]
  · intro hfed fromLsn maxTxns hmax
    obtain ⟨l, hl, hkept⟩ :=
      exists_retained size (new totalBytes shardCount) accepts hne hfed
    have hsuffix := hretains.suffix
    rw [retained, hl, Option.getD_some] at hsuffix
    exact answers_of_suffix hl hkept hsuffix (hdense shard) fromLsn hmax

/-- Two accepts of one shard and one of another, from positions 7 and 0. -/
def threeAccepts : List (Accept Nat) :=
  [⟨0, positioned 7 [40000, 40000]⟩, ⟨1, positioned 0 [5]⟩, ⟨0, positioned 9 [40000]⟩]

theorem dense_threeAccepts (shard : ShardId) : Dense (acceptedFor shard threeAccepts) := by
  by_cases h0 : shard = 0
  · subst h0
    exact ⟨7, rfl⟩
  · by_cases h1 : shard = 1
    · subst h1
      exact ⟨0, rfl⟩
    · have hnone : acceptedFor shard threeAccepts = [] := by
        simp [acceptedFor, threeAccepts, Ne.symm h0, Ne.symm h1]
      rw [hnone]
      exact ⟨0, rfl⟩

/-- Only the newest of them fits the floor of 64 KiB. -/
theorem frameLog_sound_threeAccepts :
    (∀ a ∈ threeAccepts, a.txns ≠ []) ∧ (∀ shard, Dense (acceptedFor shard threeAccepts)) ∧
    ((acceptAll id (new 0 0) threeAccepts).retained 0).txns = positioned 9 [40000] ∧
    Answers (acceptAll id (new 0 0) threeAccepts) 0 (acceptedFor 0 threeAccepts) 8 1 :=
  ⟨by decide, dense_threeAccepts, by decide,
    (frameLog_sound id 0 0 threeAccepts (by decide) dense_threeAccepts 0).2.2
      ⟨⟨0, positioned 9 [40000]⟩, by decide, rfl⟩ 8 1 (by decide)⟩

end FrameLog

end Shardlite.Replication
