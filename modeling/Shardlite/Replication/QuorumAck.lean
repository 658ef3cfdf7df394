/-
  Shardlite.Replication.QuorumAck

  What a confirmed write means.  While every subscription that reports a position
  comes from another voter whose copy is of the primary's epoch and reaches that
  far, each recorded position is held by its node, and a confirmed wait means that
  a majority of the voters holds the stream up to the write.

  The tracker records neither the epoch of a subscription nor who may vote.  A
  follower of an earlier epoch acknowledges positions of the present one.
-/
import Shardlite.Replication.Ack

namespace Shardlite.Replication

open Function

namespace AckConfig

variable {T : Type} (cfg : AckConfig T)

/-- A copy holds a part of one epoch's stream from its beginning. -/
structure CopyOk (stream : Nat → List T) (epoch : Nat) (c : Copy (List T)) : Prop where
  epoch : c.position.epoch ≤ epoch
  reach : c.position.appliedLsn ≤ (stream c.position.epoch).length
  image : c.image = (stream c.position.epoch).take c.position.appliedLsn

/-- A recorded position is one its node, another voter, holds. -/
def Acked (w : AckWorld T) (n : NodeId) (held : Nat) : Prop :=
  0 < held → n ∈ cfg.voters ∧ n ≠ cfg.primary ∧
    (w.copies n).position.epoch = w.positions.epoch ∧ held ≤ (w.copies n).position.appliedLsn

structure Inv (w : AckWorld T) : Prop where
  dirty : w.file.clean = false
  file : w.file.epoch = w.positions.epoch
  epoch : 0 < w.positions.epoch
  next : w.positions.nextLsn cfg.shard = (w.stream w.positions.epoch).length + 1
  /-- Nothing is committed in an epoch that has not begun, nor in epoch 0. -/
  unborn : ∀ {e}, w.positions.epoch < e → w.stream e = []
  zero : w.stream 0 = []
  retained : ∀ {l}, w.log.shards.get? cfg.shard = some l →
    ∃ n, n < (w.stream w.positions.epoch).length ∧
      l.txns = positioned (n + 1) ((w.stream w.positions.epoch).drop n)
  copies : ∀ node, CopyOk w.stream w.positions.epoch (w.copies node)
  voters : w.acks.voters = max cfg.voters.card 1
  acked : ∀ {n held}, w.acks.positions.get? (toLex (cfg.shard, n)) = some held →
    cfg.Acked w n held

variable {cfg} {w : AckWorld T}

theorem inv_init : cfg.Inv cfg.init where
  dirty := rfl
  file := rfl
  epoch := Nat.zero_lt_one
  next := rfl
  unborn _ := rfl
  zero := rfl
  retained := nofun
  copies _ := ⟨Nat.zero_le _, Nat.le_refl _, rfl⟩
  voters := rfl
  acked := nofun

namespace Inv

/-! ## The primary -/

variable {node : NodeId} {c : Copy (List T)} {maxTxns : Nat}

section

variable (h : cfg.Inv w)

include h

theorem lastAllocated :
    w.positions.lastAllocated cfg.shard = (w.stream w.positions.epoch).length := by
  have hnext := h.next
  unfold Positions.nextLsn at hnext
  unfold Positions.lastAllocated
  cases hget : w.positions.next.get? cfg.shard with
  | none =>
    rw [hget, Option.getD_none] at hnext
    show 0 = _
    omega
  | some n =>
    rw [hget, Option.getD_some] at hnext
    show n - 1 = _
    omega

/-- The frames retained with one more: an end of the longer stream. -/
theorem retained_write (txn : T) {l : ShardLog T}
    (hl : (cfg.write w txn).log.shards.get? cfg.shard = some l) :
    ∃ n, n < (w.stream w.positions.epoch ++ [txn]).length ∧
      l.txns = positioned (n + 1) ((w.stream w.positions.epoch ++ [txn]).drop n) := by
  obtain ⟨l', hget, hne, hsuf⟩ := accept_spec w.log cfg.retention.size cfg.shard
    (show positioned (w.positions.nextLsn cfg.shard) [txn] ≠ [] from List.cons_ne_nil _ _)
  obtain rfl : l' = l := Option.mem_unique hget hl
  have hbefore : ∃ n, ((w.log.shards.get? cfg.shard).getD {}).txns ++
      positioned (w.positions.nextLsn cfg.shard) [txn] =
        positioned (n + 1) ((w.stream w.positions.epoch ++ [txn]).drop n) := by
    cases hlog : w.log.shards.get? cfg.shard with
    | none =>
      refine ⟨(w.stream w.positions.epoch).length, ?_⟩
      rw [List.drop_left, h.next]
      rfl
    | some l₀ =>
      obtain ⟨n, hn, htxns⟩ := h.retained hlog
      have hstart : w.positions.nextLsn cfg.shard =
          n + 1 + ((w.stream w.positions.epoch).drop n).length := by
        rw [h.next, List.length_drop]
        omega
      refine ⟨n, ?_⟩
      rw [Option.getD_some, htxns, List.drop_append_of_le_length hn.le, positioned_append, hstart]
  obtain ⟨n, heq⟩ := hbefore
  rw [heq] at hsuf
  obtain ⟨m, -, htxns⟩ := exists_positioned_of_suffix hsuf
  rw [List.drop_drop] at htxns
  refine ⟨n + m, ?_, ?_⟩
  · by_contra hge
    rw [List.drop_eq_nil_of_le (Nat.not_lt.1 hge)] at htxns
    exact hne htxns
  · rw [htxns, Nat.add_right_comm]

theorem write (txn : T) : cfg.Inv (cfg.write w txn) := by
  have hself : (cfg.write w txn).stream w.positions.epoch = w.stream w.positions.epoch ++ [txn] :=
    update_self _ _ _
  have hother : ∀ {e}, e ≠ w.positions.epoch → (cfg.write w txn).stream e = w.stream e :=
    fun he => update_of_ne he _ _
  -- Every stream is what it was, perhaps with one more at its end.
  have hgrow : ∀ e, ∃ more, (cfg.write w txn).stream e = w.stream e ++ more := by
    intro e
    by_cases he : e = w.positions.epoch
    · exact ⟨[txn], by rw [he, hself]⟩
    · exact ⟨[], by rw [hother he, List.append_nil]⟩
  refine ⟨h.dirty, h.file, h.epoch, ?_, ?_, ?_, ?_, ?_, h.voters, h.acked⟩
  · show ((w.positions.allocate cfg.shard 1).2).nextLsn cfg.shard = _
    rw [Positions.nextLsn_allocate, if_pos rfl, h.next]
    show _ = ((cfg.write w txn).stream w.positions.epoch).length + 1
    rw [hself, List.length_append]
    rfl
  · intro e he
    have he : w.positions.epoch < e := he
    rw [hother he.ne']
    exact h.unborn he
  · rw [hother h.epoch.ne]
    exact h.zero
  · intro l hl
    show ∃ n, n < ((cfg.write w txn).stream w.positions.epoch).length ∧
      l.txns = positioned (n + 1) (((cfg.write w txn).stream w.positions.epoch).drop n)
    rw [hself]
    exact h.retained_write txn hl
  · intro node
    have hc := h.copies node
    obtain ⟨more, hmore⟩ := hgrow (w.copies node).position.epoch
    show CopyOk (cfg.write w txn).stream w.positions.epoch (w.copies node)
    refine ⟨hc.epoch, ?_, ?_⟩
    · rw [hmore, List.length_append]
      exact hc.reach.trans (Nat.le_add_right _ _)
    · rw [hmore, List.take_append_of_le_length hc.reach]
      exact hc.image

theorem start {file : Positions}
    (hepoch : w.positions.epoch ≤ (Positions.loadOrInit (some file)).epoch)
    (hdirty : (Positions.loadOrInit (some file)).clean = false)
    (hnext : (Positions.loadOrInit (some file)).nextLsn cfg.shard =
      (w.stream (Positions.loadOrInit (some file)).epoch).length + 1) :
    cfg.Inv (cfg.start w file) where
  dirty := hdirty
  file := rfl
  epoch := h.epoch.trans_le hepoch
  next := hnext
  unborn he := h.unborn (hepoch.trans_lt he)
  zero := h.zero
  retained := nofun
  copies node := ⟨(h.copies node).epoch.trans hepoch, (h.copies node).reach, (h.copies node).image⟩
  voters := rfl
  acked := nofun

theorem crash : cfg.Inv (cfg.start w w.file) := by
  have hload : Positions.loadOrInit (some w.file) = { epoch := w.positions.epoch + 1 } := by
    rw [Positions.loadOrInit_of_dirty h.dirty, h.file]
  refine h.start ?_ ?_ ?_
  · rw [hload]
    exact Nat.le_succ _
  · rw [hload]
  · rw [hload, h.unborn (Nat.lt_succ_self _)]
    rfl

theorem shutdown : cfg.Inv (cfg.start w w.positions.markClean) := by
  refine h.start ?_ ?_ ?_
  · exact le_refl _
  · rfl
  · exact h.next

end

/-! ## The followers -/

theorem onSubscribe (h : cfg.Inv w) {shard : ShardId} {fromLsn : Nat}
    (hhonest : shard = cfg.shard → cfg.Honest w node fromLsn) :
    cfg.Inv { w with acks := w.acks.onSubscribe node shard fromLsn } := by
  unfold AckTracker.onSubscribe
  split_ifs with hsays
  · refine ⟨h.dirty, h.file, h.epoch, h.next, h.unborn, h.zero, h.retained, h.copies, h.voters, ?_⟩
    intro n held hget
    rw [AckTracker.get?_record] at hget
    split_ifs at hget with hkey
    · obtain ⟨hshard, rfl⟩ := hkey
      intro hpos
      cases hget
      by_cases hnew : 1 < fromLsn
      · obtain ⟨hvoter, hother, hepoch, hreach⟩ := hhonest hshard.symm hsays.1 hnew
        refine ⟨hvoter, hother, hepoch, max_le ?_ (Nat.sub_le_iff_le_add.2 hreach)⟩
        -- What was recorded before is held already.
        cases hold : w.acks.positions.get? (toLex (shard, n)) with
        | none => exact Nat.zero_le _
        | some held =>
          rw [Option.getD_some]
          rcases Nat.eq_zero_or_pos held with rfl | hheld
          · exact Nat.zero_le _
          · rw [← hshard] at hold
            exact (h.acked hold hheld).2.2.2
      · have hzero : fromLsn - 1 = 0 := by omega
        rw [hzero, Nat.max_zero] at hpos ⊢
        cases hold : w.acks.positions.get? (toLex (shard, n)) with
        | none =>
          rw [hold, Option.getD_none] at hpos
          exact absurd hpos (lt_irrefl 0)
        | some held =>
          rw [hold, Option.getD_some] at hpos
          rw [← hshard] at hold
          exact h.acked hold hpos
    · exact h.acked hget
  · exact h

theorem setCopy (h : cfg.Inv w) (hepoch : c.position.epoch = w.positions.epoch)
    (hreach : c.position.appliedLsn ≤ (w.stream w.positions.epoch).length)
    (himage : c.image = (w.stream w.positions.epoch).take c.position.appliedLsn)
    (hgrow : (w.copies node).position.epoch = w.positions.epoch →
      (w.copies node).position.appliedLsn ≤ c.position.appliedLsn) :
    cfg.Inv { w with copies := update w.copies node c } := by
  refine ⟨h.dirty, h.file, h.epoch, h.next, h.unborn, h.zero, h.retained, ?_, h.voters, ?_⟩
  · intro n
    show CopyOk w.stream w.positions.epoch (update w.copies node c n)
    by_cases hn : n = node
    · rw [hn, update_self]
      exact ⟨hepoch.le, by rw [hepoch]; exact hreach, by rw [hepoch]; exact himage⟩
    · rw [update_of_ne hn]
      exact h.copies n
  · intro n held hget hpos
    obtain ⟨hvoter, hother, he, hle⟩ := h.acked hget hpos
    show n ∈ cfg.voters ∧ n ≠ cfg.primary ∧
      (update w.copies node c n).position.epoch = w.positions.epoch ∧
      held ≤ (update w.copies node c n).position.appliedLsn
    by_cases hn : n = node
    · subst hn
      rw [update_self]
      exact ⟨hvoter, hother, hepoch, hle.trans (hgrow he)⟩
    · rw [update_of_ne hn]
      exact ⟨hvoter, hother, he, hle⟩

theorem bootstrap (h : cfg.Inv w) (node : NodeId) : cfg.Inv (cfg.bootstrap w node) := by
  have hlast := h.lastAllocated
  refine h.setCopy rfl ?_ ?_ fun hepoch => ?_
  · exact hlast.le
  · show w.stream w.positions.epoch = _
    exact (List.take_of_length_le hlast.ge).symm
  · show _ ≤ w.positions.lastAllocated cfg.shard
    rw [hlast]
    have hreach := (h.copies node).reach
    rwa [hepoch] at hreach

/-- Frames served to a copy are the next part of the present stream. -/
theorem served (h : cfg.Inv w) {e : Nat} {txns : List (StreamTxn T)}
    (hserve : serveSubscribe (some w.positions.epoch) (some w.log) cfg.shard c.position.epoch
      (c.position.appliedLsn + 1) maxTxns = .frames e txns) :
    e = w.positions.epoch ∧ (c.position.epoch = 0 ∨ c.position.epoch = w.positions.epoch) ∧
      ∃ k, txns = positioned (c.position.appliedLsn + 1)
          (((w.stream w.positions.epoch).drop c.position.appliedLsn).take k) ∧
        ((w.stream w.positions.epoch).drop c.position.appliedLsn).take k ≠ [] := by
  have hepoch : c.position.epoch = 0 ∨ c.position.epoch = w.positions.epoch := by
    by_contra hno
    push Not at hno
    obtain ⟨reason, hreason⟩ := exists_needsBootstrap w.log cfg.shard
      (c.position.appliedLsn + 1) maxTxns hno.1 hno.2
    rw [hreason] at hserve
    cases hserve
  obtain ⟨rfl, hlog⟩ := serveSubscribe_eq_frames hserve
  refine ⟨rfl, hepoch, ?_⟩
  cases hget : w.log.shards.get? cfg.shard with
  | none =>
    rw [FrameLog.serve, hget] at hlog
    simp only at hlog
    split_ifs at hlog
  | some l =>
    obtain ⟨n, hn, htxns⟩ := h.retained hget
    have hne : (w.stream w.positions.epoch).drop n ≠ [] := by
      rw [Ne, List.drop_eq_nil_iff]
      omega
    rw [serve_positioned hget htxns hne, List.length_drop] at hlog
    split_ifs at hlog with hup hold
    have hdrop : n + (c.position.appliedLsn + 1 - (n + 1)) = c.position.appliedLsn := by omega
    rw [List.drop_drop, hdrop] at hlog
    refine ⟨_, (Served.frames.inj hlog).symm, ?_⟩
    rw [Ne, List.take_eq_nil_iff, List.drop_eq_nil_iff]
    omega

theorem foldl_snoc (as image : List T) : as.foldl (fun d t => d ++ [t]) image = image ++ as := by
  induction as generalizing image with
  | nil => exact (List.append_nil image).symm
  | cons a as ih => rw [List.foldl_cons, ih, List.append_assoc, List.singleton_append]

theorem sync (h : cfg.Inv w)
    (hhonest : cfg.Honest w node ((w.copies node).position.appliedLsn + 1)) :
    cfg.Inv (cfg.sync w node maxTxns) := by
  have hack : cfg.Inv { w with
      acks := w.acks.onSubscribe node cfg.shard ((w.copies node).position.appliedLsn + 1) } :=
    h.onSubscribe fun _ => hhonest
  unfold AckConfig.sync AckWorld.subscribe
  dsimp only
  split
  · next e txns hserve =>
    obtain ⟨rfl, hepoch, k, rfl, hne⟩ := h.served hserve
    obtain ⟨hle, hreach, himage⟩ := h.copies node
    have hstart : (w.copies node).image =
        (w.stream w.positions.epoch).take (w.copies node).position.appliedLsn ∧
        ((w.copies node).position.fresh = true ∨
          (w.copies node).position.epoch = w.positions.epoch) := by
      rcases hepoch with hzero | hcur
      · -- A copy of no epoch is empty, and so is the beginning of every stream.
        rw [hzero, h.zero] at hreach himage
        have happlied : (w.copies node).position.appliedLsn = 0 := Nat.le_zero.1 hreach
        rw [happlied] at himage ⊢
        exact ⟨himage, .inl (decide_eq_true ⟨hzero, happlied⟩)⟩
      · rw [hcur] at himage
        exact ⟨himage, .inr hcur⟩
    rw [Copy.apply_positioned hstart.2 hne]
    dsimp only
    have hlen : (((w.stream w.positions.epoch).drop
        (w.copies node).position.appliedLsn).take k).length + (w.copies node).position.appliedLsn ≤
          (w.stream w.positions.epoch).length := by
      have hpos := List.length_pos_iff.2 hne
      rw [List.length_take, List.length_drop] at hpos ⊢
      omega
    refine hack.setCopy rfl ?_ ?_ fun _ => Nat.le_add_right _ _
    · dsimp only
      omega
    · dsimp only
      rw [foldl_snoc, hstart.1, List.take_add,
        ← List.prefix_iff_eq_take.1 (List.take_prefix k _)]
  · exact hack

theorem step (h : cfg.Inv w) {a : AckAct T} (hc : cfg.Careful w a) : cfg.Inv (cfg.step w a) := by
  cases a with
  | write txn => exact h.write txn
  | crash => exact h.crash
  | shutdown => exact h.shutdown
  | sync node maxTxns => exact h.sync hc
  | bootstrap node => exact h.bootstrap node
  | request node shard epoch fromLsn maxTxns => exact h.onSubscribe hc

end Inv

/-- **A confirmed write is held by a majority.**  In every run whose reporting
    subscriptions come from other voters with a copy of the primary's epoch that
    reaches as far as they say, a wait for a position the primary has given out is
    confirmed only when a majority of the voters durably holds the stream of the
    present epoch through it. -/
theorem confirmed_held [DecidableEq T] (cfg : AckConfig T) (acts : List (AckAct T))
    (hc : Machine.Meets cfg.step cfg.Careful cfg.init acts) (lsn : Nat) (elapsed : Duration)
    (hpos : 0 < lsn)
    (hgiven : lsn ≤ (Machine.run cfg.step cfg.init acts).positions.lastAllocated cfg.shard)
    (hok : ((Machine.run cfg.step cfg.init acts).acks.waitForQuorum cfg.shard lsn elapsed).1 =
      .confirmed) :
    Quorum.Majority (cfg.voters.filter (cfg.Holds (Machine.run cfg.step cfg.init acts) lsn))
      cfg.voters := by
  have hinv : cfg.Inv (Machine.run cfg.step cfg.init acts) :=
    Machine.invariant_run cfg.step (I := cfg.Inv) (fun _ _ hc h => h.step hc) inv_init hc
  generalize Machine.run cfg.step cfg.init acts = w at hinv hgiven hok
  rw [hinv.lastAllocated] at hgiven
  refine AckTracker.majority_of_confirmed hinv.voters cfg.primary_mem ?_ ?_ hok
  · rw [Holds, if_pos rfl]
    exact hgiven
  · intro n held hget hle
    obtain ⟨hvoter, hother, hepoch, hreach⟩ := hinv.acked hget (hpos.trans_le hle)
    refine ⟨hvoter, hother, ?_⟩
    have hcopy := (hinv.copies n).image
    rw [hepoch] at hcopy
    rw [Holds, if_neg hother]
    refine ⟨hepoch, hle.trans hreach, ?_⟩
    rw [hcopy, List.take_take, Nat.min_eq_left (hle.trans hreach)]

/-! ### Three voters -/

/-- Node 1 is the primary; every transaction is a number of size 1. -/
def threeVoters : AckConfig Nat where
  shard := 0
  retention := ⟨fun _ => 1, 0⟩
  perShardBytes := 65536
  howLong := 1000000
  primary := 1
  voters := {1, 2, 3}
  primary_mem := Finset.mem_insert_self 1 {2, 3}

/-- A voter follows the primary, which restarts; the voter takes a snapshot before
    it asks again. -/
def bootstrapFirst : List (AckAct Nat) :=
  [.write 7, .sync 2 64, .sync 2 64, .crash, .bootstrap 2, .write 9, .sync 2 64, .sync 2 64]

theorem bootstrapFirst_careful :
    Machine.Meets threeVoters.step threeVoters.Careful threeVoters.init bootstrapFirst := by
  decide +kernel

theorem bootstrapFirst_held :
    ((Machine.run threeVoters.step threeVoters.init bootstrapFirst).acks.waitForQuorum 0 1 0).1 =
        .confirmed ∧
      Quorum.Majority (threeVoters.voters.filter (threeVoters.Holds
        (Machine.run threeVoters.step threeVoters.init bootstrapFirst) 1)) threeVoters.voters :=
  ⟨by decide +kernel, confirmed_held threeVoters bootstrapFirst bootstrapFirst_careful 1 0
    (by decide) (by decide +kernel) (by decide +kernel)⟩

/-- The same, but the voter asks with its copy of the old epoch first, and is told
    to take a snapshot. -/
def askedWithOldCopy : List (AckAct Nat) :=
  [.write 7, .sync 2 64, .sync 2 64, .crash, .sync 2 64, .write 9]

/-- The first write of the new epoch is confirmed by a position of the old one, and
    the primary is alone in holding it. -/
theorem askedWithOldCopy_confirmed :
    ((Machine.run threeVoters.step threeVoters.init askedWithOldCopy).acks.waitForQuorum 0 1 0).1 =
        .confirmed ∧
      threeVoters.voters.filter (threeVoters.Holds
        (Machine.run threeVoters.step threeVoters.init askedWithOldCopy) 1) = {1} ∧
      ¬ Quorum.Majority (threeVoters.voters.filter (threeVoters.Holds
        (Machine.run threeVoters.step threeVoters.init askedWithOldCopy) 1)) threeVoters.voters := by
  decide +kernel

end AckConfig

end Shardlite.Replication
