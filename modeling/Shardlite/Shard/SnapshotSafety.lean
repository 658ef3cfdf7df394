/-
  Shardlite.Shard.SnapshotSafety

  A snapshot that is reported valid is the shard at the position it was given, as
  long as nobody disturbs it.  The freeze is a pair of flags that belong to the
  shard's cache entry and not to a client, so what is asked of a run is that no
  snapshot begins while another one of the shard is in progress, that nobody else
  ends it, that its shard's entry is not dropped meanwhile, and that the checkpoint
  it begins with can copy everything.
-/
import Shardlite.Shard.Snapshot

namespace Shardlite.Shard

open Storage Replication Function

variable {T : Type}

/-! ## Positions keep up with commits -/

/-- Every committed transaction has a position or is still in the capture. -/
def Writer.InStep (w : Writer T) (s : ShardId) : Prop :=
  0 < w.positions.nextLsn s ∧
    w.positions.nextLsn s + (w.captures s).committed.length = (w.files s).stream.length + 1

/-- A snapshot in progress is what it claims to be, or known not to be. -/
def Writer.Frozen (w : Writer T) (b : Begun) : Prop :=
  b.epoch = w.positions.epoch ∧ ∃ entry, w.lru.peek b.shard = some entry ∧
    (entry.snapshotInvalidated = true ∨
      entry.snapshotHold = true ∧ (w.files b.shard).writes = b.writes ∧
        (w.files b.shard).main = (w.files b.shard).imageAt b.lsn ∧
        b.lsn ≤ (w.files b.shard).stream.length)

theorem lastAllocated_eq (p : Positions) (s : ShardId) : p.lastAllocated s = p.nextLsn s - 1 := by
  unfold Positions.lastAllocated Positions.nextLsn
  cases p.next.get? s <;> rfl

section DrainCapture

variable {ret : Retention T} {c : WalCapture T} {p : Positions} {shard : ShardId}
  {sink : SinkAnswer}

/-- All that shipping can do: find nothing, have everything refused, or hand
    everything on. -/
theorem drainCapture_cases (ret : Retention T) (c : WalCapture T) (p : Positions)
    (shard : ShardId) (sink : SinkAnswer) :
    (c.committed = [] ∧ (drainCapture ret c p shard sink).positions = p ∧
        (drainCapture ret c p shard sink).capture.committed = []) ∨
      ((drainCapture ret c p shard sink).positions =
          (p.allocate shard c.committed.length).2.rollback shard c.committed.length ∧
        (drainCapture ret c p shard sink).capture.committed = c.committed ∧
        ((drainCapture ret c p shard sink).shipped = .refused ∨
          (drainCapture ret c p shard sink).shipped = .captureOverflow)) ∨
      ((drainCapture ret c p shard sink).positions = (p.allocate shard c.committed.length).2 ∧
        (drainCapture ret c p shard sink).capture.committed = []) := by
  unfold drainCapture
  by_cases hnone : c.committed.isEmpty = true
  · rw [if_pos hnone]
    exact .inl ⟨List.isEmpty_iff.1 hnone, rfl, rfl⟩
  · rw [if_neg hnone]
    cases sink with
    | detached | accepts => exact .inr (.inr ⟨rfl, rfl⟩)
    | refuses =>
      refine .inr (.inl ⟨rfl, ?_, ?_⟩)
      · rw [WalCapture.committed_requeue, WalCapture.committed_drained, List.append_nil]
      · dsimp only
        split_ifs
        · exact .inr rfl
        · exact .inl rfl

theorem drainCapture_epoch : (drainCapture ret c p shard sink).positions.epoch = p.epoch := by
  obtain ⟨-, h, -⟩ | ⟨h, -, -⟩ | ⟨h, -⟩ := drainCapture_cases ret c p shard sink
  · rw [h]
  · rw [h, Positions.rollback_epoch, Positions.allocate_epoch]
  · rw [h, Positions.allocate_epoch]

/-- Shipping moves its shard's position by as many transactions as leave the
    capture, and no other shard's. -/
theorem nextLsn_drainCapture (ret : Retention T) (c : WalCapture T) (sink : SinkAnswer)
    (hpos : 0 < p.nextLsn shard) (s : ShardId) :
    (s ≠ shard → (drainCapture ret c p shard sink).positions.nextLsn s = p.nextLsn s) ∧
      p.nextLsn shard ≤ (drainCapture ret c p shard sink).positions.nextLsn shard ∧
      (drainCapture ret c p shard sink).positions.nextLsn shard +
          (drainCapture ret c p shard sink).capture.committed.length =
        p.nextLsn shard + c.committed.length := by
  obtain ⟨hnone, hp, hc⟩ | ⟨hp, hc, -⟩ | ⟨hp, hc⟩ := drainCapture_cases ret c p shard sink
  · rw [hp, hc, hnone]
    exact ⟨fun _ => rfl, le_refl _, rfl⟩
  · rw [hp, hc, Positions.nextLsn_rollback_allocate hpos, Positions.nextLsn_rollback_allocate hpos]
    exact ⟨fun _ => rfl, le_refl _, rfl⟩
  · rw [hp, hc, Positions.nextLsn_allocate, Positions.nextLsn_allocate, if_pos rfl]
    exact ⟨fun hs => if_neg hs, Nat.le_add_right _ _, rfl⟩

theorem committed_drainCapture_of_shipped
    (h : (drainCapture ret c p shard sink).shipped ≠ .refused)
    (h' : (drainCapture ret c p shard sink).shipped ≠ .captureOverflow) :
    (drainCapture ret c p shard sink).capture.committed = [] := by
  obtain ⟨-, -, hc⟩ | ⟨-, -, hbad⟩ | ⟨-, hc⟩ := drainCapture_cases ret c p shard sink
  · exact hc
  · exact absurd hbad (not_or.2 ⟨h, h'⟩)
  · exact hc

end DrainCapture

/-! ## What a job on one shard leaves intact -/

/-- Positions are in step everywhere and each of `bs` is frozen. -/
structure Writer.Sound (w : Writer T) (bs : List Begun) : Prop where
  inStep : ∀ s, w.InStep s
  frozen : ∀ b ∈ bs, w.Frozen b

namespace Writer

variable {ctx : ThreadCtx T} {w w' : Writer T} {shard : ShardId} {env : Env} {b : Begun}
  {bs : List Begun} {entry : OpenShard}
variable {s : ShardId} {f : ShardFile T}

/-- A freeze outlasts whatever leaves its entry alone and its main file unwritten. -/
theorem Frozen.of_untouched (h : w.Frozen b) (hepoch : w'.positions.epoch = w.positions.epoch)
    (hpeek : w'.lru.peek b.shard = w.lru.peek b.shard)
    (hfile : (w.files b.shard).Untouched (w'.files b.shard)) : w'.Frozen b := by
  obtain ⟨hb, e, he, hstate⟩ := h
  refine ⟨hb.trans hepoch.symm, e, hpeek.trans he, hstate.imp_right ?_⟩
  rintro ⟨hhold, hwrites, hmain, hlsn⟩
  refine ⟨hhold, hfile.writes.trans hwrites, ?_, hlsn.trans hfile.stream.length_le⟩
  rw [hfile.main, hmain, hfile.imageAt hlsn]

theorem InStep.of_stream (h : w.InStep s) (hpos : w'.positions = w.positions)
    (hcap : w'.captures s = w.captures s)
    (hstream : (w'.files s).stream = (w.files s).stream) : w'.InStep s := by
  unfold InStep
  rw [hpos, hcap, hstream]
  exact h

theorem ensureShard_frame (w : Writer T) (shard : ShardId) (env : Env) :
    (w.ensureShard shard env).2.positions = w.positions ∧
      (w.ensureShard shard env).2.captures = w.captures ∧
      ∀ s, (w.files s).Refolded ((w.ensureShard shard env).2.files s) := by
  unfold ensureShard
  cases env.mayOpen with
  | error e => exact ⟨rfl, rfl, fun _ => .refl _⟩
  | ok u =>
    refine ⟨rfl, rfl, fun s => ?_⟩
    show (w.files s).Refolded (if s ∈ _ then (w.files s).close env.last else w.files s)
    split_ifs
    · exact ShardFile.refolded_close env.last
    · exact .refl _

/-- What looking a shard up leaves of a shard it does not push out. -/
theorem ensureShard_spares (hs : s ∉ w.victims shard env)
    (hpeek : s ≠ shard ∨ (w.lru.peek s).isSome) :
    (w.ensureShard shard env).2.lru.peek s = w.lru.peek s ∧
      (w.ensureShard shard env).2.files s = w.files s := by
  unfold victims at hs
  unfold ensureShard
  cases hmay : env.mayOpen with
  | error e => exact ⟨rfl, rfl⟩
  | ok u =>
    rw [hmay] at hs
    refine ⟨?_, if_neg hs⟩
    by_cases heq : s = shard
    · obtain ⟨e, he⟩ := Option.isSome_iff_exists.1 (hpeek.resolve_left fun h => h heq)
      rw [he, heq]
      exact Lru.peek_getOrOpen_self (Lru.getOrOpen_of_peek (heq ▸ he)).1
    · exact Lru.peek_getOrOpen hs heq

theorem ensureShard_ok (h : (w.ensureShard shard env).1 = .ok entry) :
    (w.ensureShard shard env).2.lru.peek shard = some entry := by
  unfold ensureShard at h ⊢
  cases hmay : env.mayOpen with
  | error e =>
    rw [hmay] at h
    cases h
  | ok u =>
    rw [hmay] at h
    exact Lru.peek_getOrOpen_self h

theorem drain_eq (ctx : ThreadCtx T) (w : Writer T) (shard : ShardId) (env : Env) :
    (w.drain ctx shard env).2 =
      { w with
        captures := update w.captures shard
          (drainCapture ctx.retention (w.captures shard) w.positions shard env.sink).capture
        positions :=
          (drainCapture ctx.retention (w.captures shard) w.positions shard env.sink).positions } := by
  unfold drain
  dsimp only
  split <;> rfl

namespace Sound

variable {e : OpenShard}

theorem subset {bs' : List Begun} (h : w.Sound bs) (hsub : bs' ⊆ bs) : w.Sound bs' :=
  ⟨h.inStep, fun b hb => h.frozen b (hsub hb)⟩

theorem ensureShard (h : w.Sound bs) (hv : ∀ b ∈ bs, b.shard ∉ w.victims shard env) :
    (w.ensureShard shard env).2.Sound bs := by
  obtain ⟨hpos, hcap, hfiles⟩ := ensureShard_frame w shard env
  refine ⟨fun s => (h.inStep s).of_stream hpos (congrFun hcap s) (hfiles s).stream, fun b hb => ?_⟩
  obtain ⟨-, e, he, -⟩ := h.frozen b hb
  obtain ⟨hpeek, hfile⟩ := ensureShard_spares (hv b hb) (.inr (Option.isSome_of_eq_some he))
  refine (h.frozen b hb).of_untouched (congrArg _ hpos) hpeek ?_
  rw [hfile]

theorem commit (ctx : ThreadCtx T) (shard : ShardId) (h : w.Sound bs) (txn : T) :
    (w.commit ctx shard txn).Sound bs := by
  constructor
  · intro s
    obtain ⟨hpos, hlen⟩ := h.inStep s
    refine ⟨hpos, ?_⟩
    show w.positions.nextLsn s +
      (update w.captures shard _ s).committed.length =
        (update w.files shard _ s).stream.length + 1
    by_cases hs : s = shard
    · subst hs
      rw [update_self, update_self, WalCapture.committed_emitCommit,
        ShardFile.commit, List.length_append, List.length_append, List.length_singleton]
      omega
    · rw [update_of_ne hs, update_of_ne hs, hlen]
  · intro b hb
    refine (h.frozen b hb).of_untouched rfl rfl ?_
    show (w.files b.shard).Untouched (update w.files shard _ b.shard)
    by_cases hs : b.shard = shard
    · rw [← hs, update_self]
      exact ShardFile.untouched_commit txn
    · rw [update_of_ne hs]

theorem commitSome (ctx : ThreadCtx T) (shard : ShardId) (h : w.Sound bs) :
    ∀ txn : Option T, (w.commitSome ctx shard txn).Sound bs
  | none => h
  | some txn => h.commit ctx shard txn

theorem drain (ctx : ThreadCtx T) (shard : ShardId) (env : Env) (h : w.Sound bs) :
    (w.drain ctx shard env).2.Sound bs := by
  rw [drain_eq]
  constructor
  · intro s
    obtain ⟨hpos, hlen⟩ := h.inStep s
    obtain ⟨hother, hle, hsum⟩ :=
      nextLsn_drainCapture ctx.retention (w.captures shard) env.sink (h.inStep shard).1 s
    unfold InStep
    dsimp only
    by_cases hs : s = shard
    · subst hs
      rw [update_self]
      exact ⟨hpos.trans_le hle, hsum.trans hlen⟩
    · rw [update_of_ne hs, hother hs]
      exact ⟨hpos, hlen⟩
  · intro b hb
    exact (h.frozen b hb).of_untouched drainCapture_epoch rfl (.refl _)

/-- An entry may change as long as no freeze it stands for is forgotten. -/
theorem setEntry (h : w.Sound bs) (hentry : w.lru.peek shard = some entry)
    (he : ∀ b ∈ bs, b.shard = shard → e.snapshotInvalidated = true ∨
      e.snapshotHold = entry.snapshotHold ∧ e.snapshotInvalidated = entry.snapshotInvalidated) :
    (w.setEntry shard e).Sound bs := by
  have hpeek (s : ShardId) :
      (w.setEntry shard e).lru.peek s = if s = shard then some e else w.lru.peek s :=
    Lru.peek_set s (Option.isSome_of_eq_some hentry)
  refine ⟨h.inStep, fun b hb => ?_⟩
  by_cases hs : b.shard = shard
  · obtain ⟨hepoch, e₀, he₀, hstate⟩ := h.frozen b hb
    obtain rfl : e₀ = entry := Option.some.inj (he₀.symm.trans (hs ▸ hentry))
    refine ⟨hepoch, e, by rw [hpeek, if_pos hs], ?_⟩
    rcases he b hb hs with hinv | ⟨hhold, hinv⟩
    · exact .inl hinv
    · rw [hhold, hinv]
      exact hstate
  · exact (h.frozen b hb).of_untouched rfl ((hpeek _).trans (if_neg hs)) (.refl _)

theorem files_setFile (s : ShardId) :
    (w.setFile shard f).files s = if s = shard then f else w.files s :=
  update_apply ..

/-- A file with the same stream leaves every stream as it is. -/
theorem stream_setFile (hf : f.stream = (w.files shard).stream) (s : ShardId) :
    ((w.setFile shard f).files s).stream = (w.files s).stream := by
  rw [files_setFile]
  split_ifs with hs
  · rw [hs, hf]
  · rfl

theorem refold (h : w.Sound bs) (hentry : w.lru.peek shard = some entry)
    (hhold : entry.snapshotHold = false) (hf : (w.files shard).Refolded f) :
    (w.setFile shard f).Sound bs := by
  constructor
  · exact fun s => (h.inStep s).of_stream rfl rfl (stream_setFile hf.stream s)
  · intro b hb
    by_cases hs : b.shard = shard
    · obtain ⟨hepoch, e, he, hstate⟩ := h.frozen b hb
      obtain rfl : e = entry := Option.some.inj (he.symm.trans (hs ▸ hentry))
      refine ⟨hepoch, e, he, .inl (hstate.resolve_right fun hheld => ?_)⟩
      rw [hhold] at hheld
      exact Bool.false_ne_true hheld.1
    · refine (h.frozen b hb).of_untouched rfl rfl ?_
      rw [files_setFile, if_neg hs]

theorem setUntouched (h : w.Sound bs) (hf : (w.files shard).Untouched f)
    (hstream : f.stream = (w.files shard).stream) : (w.setFile shard f).Sound bs := by
  constructor
  · exact fun s => (h.inStep s).of_stream rfl rfl (stream_setFile hstream s)
  · intro b hb
    refine (h.frozen b hb).of_untouched rfl rfl ?_
    rw [files_setFile]
    split_ifs with hs
    · rw [hs]
      exact hf
    · exact .refl _

/-- With no snapshot of the shard in progress, its file and its entry are free. -/
theorem replace {lru : Lru OpenShard} (h : w.Sound bs)
    (hnone : ∀ b ∈ bs, b.shard ≠ shard) (hf : (w.files shard).Refolded f)
    (hlru : ∀ s, s ≠ shard → lru.peek s = w.lru.peek s) :
    ({ w.setFile shard f with lru := lru } : Writer T).Sound bs := by
  constructor
  · exact fun s => (h.inStep s).of_stream rfl rfl (stream_setFile hf.stream s)
  · intro b hb
    have hs := hnone b hb
    refine (h.frozen b hb).of_untouched rfl (hlru _ hs) ?_
    show (w.files b.shard).Untouched (update w.files shard f b.shard)
    rw [update_of_ne hs]

theorem afterBatch (ctx : ThreadCtx T) (env : Env) (h : w.Sound bs)
    (hentry : w.lru.peek shard = some entry)
    (hhold : e.snapshotHold = false)
    (he : ∀ b ∈ bs, b.shard = shard → e.snapshotInvalidated = true ∨
      e.snapshotHold = entry.snapshotHold ∧ e.snapshotInvalidated = entry.snapshotInvalidated) :
    (w.afterBatch ctx shard env e).Sound bs := by
  have hf := Checkpointer.refolded_afterBatch ctx.checkpoint e.checkpointer (w.files shard)
    env.walBytes env.attempts
  unfold Writer.afterBatch
  cases hafter : e.checkpointer.afterBatch ctx.checkpoint (w.files shard) env.walBytes
      env.attempts with
  | mk c f =>
    rw [hafter] at hf
    have hset := h.setEntry (e := { e with checkpointer := c }) hentry he
    have hpeek : (w.setEntry shard { e with checkpointer := c }).lru.peek shard =
        some { e with checkpointer := c } :=
      (Lru.peek_set shard (Option.isSome_of_eq_some hentry)).trans (if_pos rfl)
    exact hset.refold hpeek hhold hf

theorem settle (ctx : ThreadCtx T) (env : Env) (h : w.Sound bs)
    (hentry : w.lru.peek shard = some entry) :
    (w.settle ctx shard env entry).Sound bs := by
  unfold Writer.settle
  split_ifs with hhold hfull
  · -- The hold is broken, and remembered as such before the file is written to.
    exact h.afterBatch ctx env hentry rfl fun _ _ _ => .inl rfl
  · exact h
  · exact h.afterBatch ctx env hentry (Bool.eq_false_of_not_eq_true hhold) fun _ _ _ => .inr ⟨rfl, rfl⟩

end Sound

theorem lru_commitSome (txn : Option T) : (w.commitSome ctx shard txn).lru = w.lru := by
  cases txn <;> rfl

/-! ## The jobs -/

theorem Sound.ensured {r : Except Error OpenShard} (h : w.Sound bs)
    (hv : ∀ b ∈ bs, b.shard ∉ w.victims shard env) (heq : w.ensureShard shard env = (r, w')) :
    w'.Sound bs ∧ ∀ entry, r = .ok entry → w'.lru.peek shard = some entry := by
  have hsound := h.ensureShard hv
  have hok := @ensureShard_ok T w shard env
  rw [heq] at hsound hok
  exact ⟨hsound, fun entry hr => hok hr⟩

theorem Sound.drained {r : Except Error (Option Nat)} (h : w.Sound bs)
    (heq : w.drain ctx shard env = (r, w')) :
    w'.Sound bs ∧ w'.lru = w.lru ∧ w'.files = w.files := by
  have hsound := h.drain ctx shard env
  have hw := drain_eq ctx w shard env
  rw [heq] at hsound hw
  obtain rfl : w' = _ := hw
  exact ⟨hsound, rfl, rfl⟩

section Jobs

variable (h : w.Sound bs) (hv : ∀ b ∈ bs, b.shard ∉ w.victims shard env)

include h hv

theorem Sound.applyShardBatch (batch : Except Error (Option T)) :
    (w.applyShardBatch ctx shard env batch).Sound bs := by
  unfold Writer.applyShardBatch
  cases hens : w.ensureShard shard env with
  | mk r w₁ =>
    obtain ⟨h₁, hentry⟩ := h.ensured hv hens
    cases r with
    | error e => exact h₁
    | ok entry =>
      cases env.gate with
      | error e => exact h₁
      | ok u =>
        cases batch with
        | error e => exact h₁
        | ok txn =>
          dsimp only
          cases hdrain : (w₁.commitSome ctx shard txn).drain ctx shard env with
          | mk r w₂ =>
            obtain ⟨h₂, hlru, -⟩ := (h₁.commitSome ctx shard txn).drained hdrain
            cases r with
            | error e => exact h₂
            | ok highest =>
              have hpeek : w₂.lru.peek shard = some entry := by
                rw [hlru, lru_commitSome]
                exact hentry entry rfl
              have hsettled := h₂.settle ctx env hpeek
              cases highest with
              | none => exact hsettled
              | some lsn =>
                cases env.quorum with
                | error e => exact h₂
                | ok u => exact hsettled

theorem Sound.checkpointShard : (w.checkpointShard shard env).2.Sound bs := by
  unfold Writer.checkpointShard
  cases hens : w.ensureShard shard env with
  | mk r w₁ =>
    obtain ⟨h₁, hentry⟩ := h.ensured hv hens
    cases r with
    | error e => exact h₁
    | ok entry =>
      dsimp only
      split_ifs with hhold
      · exact h₁
      · have hf := ShardFile.refolded_walCheckpoint (f := w₁.files shard) .truncate
          env.attempts.1
        cases hck : (w₁.files shard).walCheckpoint .truncate env.attempts.1 with
        | mk row f =>
          rw [hck] at hf
          cases row with
          | none => exact h₁
          | some row =>
            exact h₁.refold (hentry entry rfl) (Bool.eq_false_of_not_eq_true hhold) hf

theorem Sound.vacuumShard (rebuilt : Except Error T) :
    (w.vacuumShard ctx shard env rebuilt).2.Sound bs := by
  unfold Writer.vacuumShard
  cases hens : w.ensureShard shard env with
  | mk r w₁ =>
    obtain ⟨h₁, hentry⟩ := h.ensured hv hens
    cases r with
    | error e => exact h₁
    | ok entry =>
      dsimp only
      split_ifs with hhold
      · exact h₁
      · cases rebuilt with
        | error e => exact h₁
        | ok txn =>
          have h₂ := h₁.commit ctx shard txn
          have hf := ShardFile.refolded_walCheckpoint
            (f := (w₁.commit ctx shard txn).files shard) .truncate env.attempts.1
          dsimp only
          cases hck : ((w₁.commit ctx shard txn).files shard).walCheckpoint .truncate
              env.attempts.1 with
          | mk row f =>
            rw [hck] at hf
            cases row with
            | none => exact h₂
            | some row =>
              exact (h₂.refold (hentry entry rfl)
                (Bool.eq_false_of_not_eq_true hhold) hf).drain ctx shard env

theorem Sound.schemaOp (ddl : Option (Except Error T)) :
    (w.schemaOp ctx shard env ddl).2.Sound bs := by
  unfold Writer.schemaOp
  cases hens : w.ensureShard shard env with
  | mk r w₁ =>
    obtain ⟨h₁, -⟩ := h.ensured hv hens
    cases r with
    | error e => exact h₁
    | ok entry =>
      cases ddl with
      | none => exact h₁
      | some ddl =>
        cases env.gate with
        | error e => exact h₁
        | ok u =>
          cases ddl with
          | error e => exact h₁
          | ok txn => exact (h₁.commit ctx shard txn).drain ctx shard env

end Jobs

theorem Sound.quiesce (h : w.Sound bs) (hnone : ∀ b ∈ bs, b.shard ≠ shard) (last : Bool) :
    (w.quiesce shard last).Sound bs := by
  unfold Writer.quiesce
  cases w.lru.peek shard with
  | none => exact h
  | some entry =>
    refine h.replace hnone (ShardFile.refolded_close last) fun s hs => ?_
    rw [Lru.peek_remove, if_neg hs]

/-- Releasing a freeze disturbs no snapshot of another shard. -/
theorem Sound.endSnapshot (h : w.Sound bs) (hv : ∀ b ∈ bs, b.shard ∉ w.victims shard env)
    (hnone : ∀ b ∈ bs, b.shard ≠ shard) : (w.endSnapshot shard env).2.Sound bs := by
  unfold Writer.endSnapshot
  cases hens : w.ensureShard shard env with
  | mk r w₁ =>
    obtain ⟨h₁, hentry⟩ := h.ensured hv hens
    cases r with
    | error e => exact h₁
    | ok entry =>
      exact h₁.setEntry (hentry entry rfl) fun b hb hs => absurd hs (hnone b hb)

theorem Sound.endSnapshot_error (h : w.Sound bs) (hv : ∀ b ∈ bs, b.shard ∉ w.victims shard env)
    (e : Error)
    (w' : Writer T) (hend : w.endSnapshot shard env = (.error e, w')) : w'.Sound bs := by
  unfold Writer.endSnapshot at hend
  cases hens : w.ensureShard shard env with
  | mk r w₁ =>
    obtain ⟨h₁, -⟩ := h.ensured hv hens
    rw [hens] at hend
    cases r with
    | error e =>
      obtain ⟨-, rfl⟩ := Prod.ext_iff.1 hend
      exact h₁
    | ok entry => cases (Prod.ext_iff.1 hend).1

/-- **An end that reports a valid snapshot.**  If its freeze was kept, the main
    file is as it was at the begin and holds the image of the position given. -/
theorem Frozen.of_end_valid (h : w.Frozen b) (hv : b.shard ∉ w.victims b.shard env)
    (hvalid : w.endSnapshot b.shard env = (.ok true, w')) :
    b.epoch = w'.positions.epoch ∧ (w'.files b.shard).writes = b.writes ∧
      (w'.files b.shard).main = (w'.files b.shard).imageAt b.lsn := by
  obtain ⟨hepoch, e, he, hstate⟩ := h
  obtain ⟨hpos, -, -⟩ := ensureShard_frame w b.shard env
  obtain ⟨hpeek, hfile⟩ := ensureShard_spares hv (.inr (Option.isSome_of_eq_some he))
  have hok := @ensureShard_ok T w b.shard env
  unfold Writer.endSnapshot at hvalid
  cases hens : w.ensureShard b.shard env with
  | mk r w₁ =>
    rw [hens] at hpos hpeek hfile hok hvalid
    cases r with
    | error e => cases (Prod.ext_iff.1 hvalid).1
    | ok entry =>
      obtain ⟨hval, rfl⟩ := Prod.ext_iff.1 hvalid
      obtain rfl : e = entry := Option.some.inj (he.symm.trans (hpeek.symm.trans (hok rfl)))
      have hvalid' : e.snapshotInvalidated = false := by
        simpa only [Except.ok.injEq, Bool.not_eq_true'] using hval
      rcases hstate with hinv | ⟨-, hwrites, hmain, -⟩
      · rw [hvalid'] at hinv
        exact absurd hinv Bool.false_ne_true
      · refine ⟨hepoch.trans (congrArg _ hpos).symm, ?_, ?_⟩
        · exact (congrArg ShardFile.writes hfile).trans hwrites
        · show (w₁.files b.shard).main = (w₁.files b.shard).imageAt b.lsn
          rw [show w₁.files b.shard = w.files b.shard from hfile, hmain]

theorem committed_drain {highest : Option Nat} (heq : w.drain ctx shard env = (.ok highest, w')) :
    (w'.captures shard).committed = [] := by
  unfold drain at heq
  dsimp only at heq
  have hleft := @committed_drainCapture_of_shipped T ctx.retention (w.captures shard) w.positions
    shard env.sink
  cases hship :
      (drainCapture ctx.retention (w.captures shard) w.positions shard env.sink).shipped with
  | nothing =>
    rw [hship] at heq hleft
    obtain ⟨-, rfl⟩ := Prod.ext_iff.1 heq
    dsimp only
    rw [update_self]
    exact hleft Shipped.noConfusion Shipped.noConfusion
  | upTo lsn =>
    rw [hship] at heq hleft
    obtain ⟨-, rfl⟩ := Prod.ext_iff.1 heq
    dsimp only
    rw [update_self]
    exact hleft Shipped.noConfusion Shipped.noConfusion
  | refused =>
    rw [hship] at heq
    cases (Prod.ext_iff.1 heq).1
  | captureOverflow =>
    rw [hship] at heq
    cases (Prod.ext_iff.1 heq).1

/-- What a begin can do: fail to find the shard, fail after shipping, or let the
    checkpoint run and set the hold. -/
theorem beginSnapshot_cases {r : Except Error (Nat × Nat)}
    (hbegin : w.beginSnapshot ctx shard env = (r, w')) :
    (∃ e, r = .error e ∧ w.ensureShard shard env = (.error e, w')) ∨
      ∃ entry w₁ r₂ w₂, w.ensureShard shard env = (.ok entry, w₁) ∧
        w₁.drain ctx shard env = (r₂, w₂) ∧
        ((∃ e, r = .error e ∧ w' = w₂) ∨
          ∃ highest row f, r₂ = .ok highest ∧
            (w₂.files shard).walCheckpoint .truncate env.attempts.1 = (some row, f) ∧
            r = .ok (w₂.positions.epoch, w₂.positions.lastAllocated shard) ∧
            w' = (w₂.setEntry shard
              { entry with snapshotHold := true, snapshotInvalidated := false }).setFile shard f) := by
  unfold Writer.beginSnapshot at hbegin
  cases hens : w.ensureShard shard env with
  | mk r₁ w₁ =>
    rw [hens] at hbegin
    cases r₁ with
    | error e =>
      obtain ⟨rfl, rfl⟩ := Prod.ext_iff.1 hbegin
      exact .inl ⟨e, rfl, rfl⟩
    | ok entry =>
      dsimp only at hbegin
      cases hdrain : w₁.drain ctx shard env with
      | mk r₂ w₂ =>
        refine .inr ⟨entry, w₁, r₂, w₂, rfl, hdrain, ?_⟩
        rw [hdrain] at hbegin
        cases r₂ with
        | error e =>
          obtain ⟨rfl, rfl⟩ := Prod.ext_iff.1 hbegin
          exact .inl ⟨e, rfl, rfl⟩
        | ok highest =>
          dsimp only at hbegin
          cases hck : (w₂.files shard).walCheckpoint .truncate env.attempts.1 with
          | mk row f =>
            rw [hck] at hbegin
            obtain ⟨rfl, rfl⟩ := Prod.ext_iff.1 hbegin
            cases row with
            | none => exact .inl ⟨env.refusal, rfl, rfl⟩
            | some row => exact .inr ⟨highest, row, f, rfl, rfl, rfl, rfl⟩

theorem Sound.beginSnapshot_error {e : Error} (h : w.Sound bs)
    (hv : ∀ b ∈ bs, b.shard ∉ w.victims shard env)
    (hbegin : w.beginSnapshot ctx shard env = (.error e, w')) : w'.Sound bs := by
  obtain ⟨_, -, hens⟩ | ⟨entry, w₁, r₂, w₂, hens, hdrain, hend⟩ := beginSnapshot_cases hbegin
  · exact (h.ensured hv hens).1
  · have h₂ := ((h.ensured hv hens).1.drained hdrain).1
    obtain ⟨-, -, rfl⟩ | ⟨_, _, _, -, -, hr, -⟩ := hend
    · exact h₂
    · cases hr

/-- A checkpoint that nothing holds back leaves all of the shard in its main file. -/
theorem main_of_checkpoint {f' : ShardFile T} {row : CheckpointRow} {a : Attempt}
    (hcurrent : ∀ mark ∈ f.readers, f.content.length ≤ mark) (ha : a ≠ .locked)
    (hck : f.walCheckpoint .truncate a = (some row, f')) : f'.main = f'.content := by
  cases a with
  | locked => exact absurd rfl ha
  | fails => cases (Prod.ext_iff.1 hck).1
  | runs =>
    obtain ⟨-, rfl⟩ := Prod.ext_iff.1 hck
    show (f.backfill f.safe).main = (f.backfill f.safe).content
    rw [ShardFile.safe_of_current hcurrent, ShardFile.main_backfill_all,
      (ShardFile.refolded_backfill _).content]

/-- **A begin.**  With no other snapshot of the shard in progress and nothing in the
    way of the checkpoint, the shard is frozen at the position the client is told. -/
theorem Sound.beginSnapshot_ok {epoch lsn : Nat} (client : ClientId) (h : w.Sound bs)
    (hv : ∀ b ∈ bs, b.shard ∉ w.victims shard env) (hnone : ∀ b ∈ bs, b.shard ≠ shard)
    (hcurrent : ∀ mark ∈ (w.files shard).readers, (w.files shard).content.length ≤ mark)
    (hlock : env.attempts.1 ≠ .locked)
    (hbegin : w.beginSnapshot ctx shard env = (.ok (epoch, lsn), w')) :
    w'.Sound (⟨client, shard, epoch, lsn, (w'.files shard).writes⟩ :: bs) := by
  have hframe := ensureShard_frame w shard env
  obtain ⟨e, he, -⟩ | ⟨entry, w₁, r₂, w₂, hens, hdrain, hend⟩ := beginSnapshot_cases hbegin
  · cases he
  obtain ⟨e, he, -⟩ | ⟨highest, row, f, rfl, hck, hr, rfl⟩ := hend
  · cases he
  obtain ⟨rfl, rfl⟩ := Prod.ext_iff.1 (Except.ok.inj hr)
  obtain ⟨h₁, hpeek⟩ := h.ensured hv hens
  obtain ⟨h₂, hlru₂, hfiles₂⟩ := h₁.drained hdrain
  have hempty := committed_drain hdrain
  have hentry : w₂.lru.peek shard = some entry := by
    rw [hlru₂]
    exact hpeek entry rfl
  have hfiles : (w.files shard).Refolded (w₂.files shard) := by
    rw [hfiles₂]
    rw [hens] at hframe
    exact hframe.2.2 shard
  have hf : (w₂.files shard).Refolded f := by
    have := ShardFile.refolded_walCheckpoint (f := w₂.files shard) .truncate env.attempts.1
    rwa [hck] at this
  have hlru (s : ShardId) := Lru.peek_set s (Option.isSome_of_eq_some hentry)
    (v := { entry with snapshotHold := true, snapshotInvalidated := false })
  have hbs := h₂.replace hnone hf fun s hs => (hlru s).trans (if_neg hs)
  refine ⟨hbs.inStep, fun b hb => ?_⟩
  rcases List.mem_cons.1 hb with rfl | hb
  · have hlen : w₂.positions.lastAllocated shard = f.stream.length := by
      have := (h₂.inStep shard).2
      rw [hempty, List.length_nil, Nat.add_zero] at this
      rw [lastAllocated_eq, this, hf.stream, Nat.add_sub_cancel]
    have hmain : f.main = f.content := by
      refine main_of_checkpoint ?_ hlock hck
      rw [hfiles.readers, hfiles.content]
      exact hcurrent
    refine ⟨rfl, _, (hlru shard).trans (if_pos rfl), .inr ⟨rfl, rfl, ?_, ?_⟩⟩
    · show (update w₂.files shard f shard).main =
        (update w₂.files shard f shard).imageAt (w₂.positions.lastAllocated shard)
      rw [update_self, hmain, ShardFile.imageAt_length hlen]
    · show w₂.positions.lastAllocated shard ≤ (update w₂.files shard f shard).stream.length
      rw [update_self, hlen]
  · exact hbs.frozen b hb

end Writer

/-! ## The node -/

/-- What a valid end promises: the position is one of the current epoch, the main
    file was not written to since the begin, and it holds the position's image. -/
def Ended.Consistent (r : Ended T) : Prop :=
  r.begun.epoch = r.epoch ∧ r.file.writes = r.begun.writes ∧
    r.file.main = r.file.imageAt r.begun.lsn

instance [DecidableEq T] (r : Ended T) : Decidable r.Consistent :=
  inferInstanceAs (Decidable (_ ∧ _ ∧ _))

namespace SnapshotNode

variable {ctx : ThreadCtx T} (n : SnapshotNode T) {client : ClientId} {shard : ShardId} {env : Env}

/-- No shard with a snapshot in progress loses its place in the cache to `shard`. -/
def KeepsOpen (shard : ShardId) (env : Env) : Prop :=
  ∀ b ∈ n.begun, b.shard ∉ n.writer.victims shard env

/-- No snapshot of the shard is being copied. -/
def Unfrozen (shard : ShardId) : Prop := ∀ b ∈ n.begun, b.shard ≠ shard

/-- **What a snapshot in progress needs to be left alone.**  Its shard's entry stays
    in the cache and is not quiesced; nobody begins another one or releases it, its
    own client apart; and when it begins, no read older than the last commit is in
    progress and the checkpoint lock is free. -/
def Undisturbed : SnapshotAct T → Prop
  | .batch shard _ env => n.KeepsOpen shard env
  | .ensureOpen shard env => n.KeepsOpen shard env
  | .checkpoint shard env => n.KeepsOpen shard env
  | .vacuum shard _ env => n.KeepsOpen shard env
  | .schema shard _ env => n.KeepsOpen shard env
  | .quiesce shard _ => n.Unfrozen shard
  | .readBegin _ => True
  | .readEnd _ _ => True
  | .snapshotBegin _ shard _ env =>
    n.KeepsOpen shard env ∧ n.Unfrozen shard ∧ env.attempts.1 ≠ .locked ∧
      ∀ mark ∈ (n.writer.files shard).readers, (n.writer.files shard).content.length ≤ mark
  | .giveUp _ shard env => n.KeepsOpen shard env ∧ n.Unfrozen shard
  | .snapshotEnd client shard env =>
    n.KeepsOpen shard env ∧ ∀ b ∈ n.begun, b.shard = shard → b.client = client
  | .hangUp _ => True
  | .release _ shard env => n.KeepsOpen shard env ∧ n.Unfrozen shard

instance (shard : ShardId) (env : Env) : Decidable (n.KeepsOpen shard env) :=
  inferInstanceAs (Decidable (∀ b ∈ n.begun, _))

instance (shard : ShardId) : Decidable (n.Unfrozen shard) :=
  inferInstanceAs (Decidable (∀ b ∈ n.begun, _))

instance (act : SnapshotAct T) : Decidable (n.Undisturbed act) := by
  cases act <;> unfold Undisturbed <;> infer_instance

structure Inv : Prop where
  sound : n.writer.Sound n.begun
  consistent : ∀ r ∈ n.ended, r.Consistent

variable {n}

namespace Inv

variable (h : n.Inv)

include h

theorem snapshotBegin {sized : Bool} (hkeeps : n.KeepsOpen shard env) (hfree : n.Unfrozen shard)
    (hlock : env.attempts.1 ≠ .locked)
    (hcurrent : ∀ mark ∈ (n.writer.files shard).readers,
      (n.writer.files shard).content.length ≤ mark) :
    (n.snapshotBegin ctx client shard env sized).Inv := by
  unfold SnapshotNode.snapshotBegin
  by_cases hserves : n.Serves client
  · rw [if_pos hserves]
    cases hbegin : n.writer.beginSnapshot ctx shard env with
    | mk r w' =>
      cases r with
      | error e =>
        exact ⟨h.sound.beginSnapshot_error hkeeps hbegin, h.consistent⟩
      | ok pos =>
        have hw := h.sound.beginSnapshot_ok client hkeeps hfree hcurrent hlock hbegin
        cases sized with
        | true =>
          refine ⟨hw.subset ?_, h.consistent⟩
          exact List.cons_subset_cons _ List.filter_sublist.subset
        | false => exact ⟨hw.subset (List.subset_cons_self _ _), h.consistent⟩
  · rw [if_neg hserves]
    exact h

theorem released (hkeeps : n.KeepsOpen shard env) (hfree : n.Unfrozen shard) (c : Conn) :
    ({ n.setConn client c with writer := (n.writer.endSnapshot shard env).2 } :
      SnapshotNode T).Inv :=
  ⟨h.sound.endSnapshot hkeeps hfree, h.consistent⟩

theorem snapshotEnd (hkeeps : n.KeepsOpen shard env)
    (hmine : ∀ b ∈ n.begun, b.shard = shard → b.client = client) :
    (n.snapshotEnd client shard env).Inv := by
  unfold SnapshotNode.snapshotEnd
  by_cases hserves : n.Serves client
  · rw [if_pos hserves]
    -- What is left in progress is on other shards, so the release does not touch it.
    have hrest : n.writer.Sound (n.begun.filter fun b => ¬(b.client = client ∧ b.shard = shard)) :=
      h.sound.subset List.filter_sublist.subset
    have hw := hrest.endSnapshot (fun b hb => hkeeps b (List.mem_of_mem_filter hb))
      fun b hb hs => of_decide_eq_true (List.mem_filter.1 hb).2
        ⟨hmine b (List.mem_of_mem_filter hb) hs, hs⟩
    have hall := h.sound.endSnapshot_error hkeeps
    cases hend : n.writer.endSnapshot shard env with
    | mk r w' =>
      rw [hend] at hw
      cases r with
      | error e => exact ⟨hall e w' hend, h.consistent⟩
      | ok valid =>
        cases valid with
        | false => exact ⟨hw, h.consistent⟩
        | true =>
          refine ⟨hw, fun r hr => ?_⟩
          rcases List.mem_append.1 hr with hr | hr
          · obtain ⟨b, hb, rfl⟩ := List.mem_map.1 hr
            obtain ⟨hmem, hb⟩ := List.mem_filter.1 hb
            obtain ⟨-, rfl⟩ := of_decide_eq_true hb
            exact (h.sound.frozen b hmem).of_end_valid (hkeeps b hmem) hend
          · exact h.consistent r hr
  · rw [if_neg hserves]
    exact h

theorem step {act : SnapshotAct T} (hok : n.Undisturbed act) : (n.step ctx act).Inv := by
  cases act with
  | batch shard batch env => exact ⟨h.sound.applyShardBatch hok batch, h.consistent⟩
  | ensureOpen shard env => exact ⟨h.sound.ensureShard hok, h.consistent⟩
  | checkpoint shard env => exact ⟨h.sound.checkpointShard hok, h.consistent⟩
  | vacuum shard rebuilt env => exact ⟨h.sound.vacuumShard hok rebuilt, h.consistent⟩
  | schema shard ddl env => exact ⟨h.sound.schemaOp hok ddl, h.consistent⟩
  | quiesce shard last => exact ⟨h.sound.quiesce hok last, h.consistent⟩
  | readBegin shard =>
    exact ⟨h.sound.setUntouched ShardFile.untouched_readBegin rfl, h.consistent⟩
  | readEnd shard mark =>
    exact ⟨h.sound.setUntouched (ShardFile.untouched_readEnd mark) rfl, h.consistent⟩
  | snapshotBegin client shard sized env =>
    exact h.snapshotBegin hok.1 hok.2.1 hok.2.2.1 hok.2.2.2
  | giveUp client shard env =>
    show (n.giveUp client shard env).Inv
    unfold SnapshotNode.giveUp
    dsimp only
    split_ifs
    · exact h.released hok.1 hok.2 _
    · exact h
  | snapshotEnd client shard env => exact h.snapshotEnd hok.1 hok.2
  | hangUp client => exact ⟨h.sound.subset List.filter_sublist.subset, h.consistent⟩
  | release client shard env =>
    show (n.release client shard env).Inv
    unfold SnapshotNode.release
    dsimp only
    split_ifs
    · exact h.released hok.1 hok.2 _
    · exact h

end Inv

/-- **Snapshot consistency.**  Whatever writes, reads, checkpoints, evictions and
    clients do, a snapshot left undisturbed that is reported valid was not written
    to while it was copied and is the shard at the position it was given. -/
theorem valid_snapshot_is_image {w : Writer T} (hstart : ∀ s, w.InStep s)
    {acts : List (SnapshotAct T)}
    (hacts : Machine.Meets (step ctx) Undisturbed { writer := w } acts) :
    ∀ r ∈ (Machine.run (step ctx) { writer := w } acts).ended, r.Consistent := by
  have hinit : ({ writer := w } : SnapshotNode T).Inv :=
    ⟨⟨hstart, nofun⟩, nofun⟩
  exact (Machine.invariant_run (SnapshotNode.step ctx) (I := Inv) (fun _ _ hok h => h.step hok)
    hinit hacts).consistent

/-! A writer thread with room for one open shard, and for copies that let the log
grow to a hundred bytes. -/

section Runs

def smallCtx : ThreadCtx String where
  checkpoint :=
    { checkEveryBatches := 1, softLimitBytes := 0, hardLimitBytes := 0, stallThreshold := 9
      maxStallBackoff := 1 }
  retention := ⟨String.length, 0⟩
  snapshotHoldMaxWal := 100

def smallWriter : Writer String where
  lru := { capacity := 1 }
  files := fun _ => { base := ["table"] }
  captures := fun _ => {}
  positions := Positions.loadOrInit none

theorem smallWriter_inStep (s : ShardId) : smallWriter.InStep s :=
  ⟨Nat.one_pos, rfl⟩

/-- The snapshots `acts` get reported valid. -/
def reported (acts : List (SnapshotAct String)) : List (Ended String) :=
  (Machine.run (step smallCtx) { writer := smallWriter } acts).ended

def write (shard : ShardId) (row : String) : SnapshotAct String := .batch shard (.ok (some row)) {}

/-- A snapshot with a read and a write under it, one that a growing log breaks, and
    one by another client after the first one left. -/
def undisturbedActs : List (SnapshotAct String) :=
  [write 0 "a", .readBegin 0, .snapshotBegin 1 0 true {}, write 0 "b", .checkpoint 0 {},
    .readEnd 0 2, .snapshotEnd 1 0 {},
    .snapshotBegin 1 0 true {}, .batch 0 (.ok (some "c")) { walBytes := 100 }, .snapshotEnd 1 0 {},
    .hangUp 1, .release 1 0 {}, write 0 "d", .snapshotBegin 2 0 true {}, write 0 "e",
    .snapshotEnd 2 0 {}]

theorem undisturbedActs_consistent : (reported undisturbedActs).length = 2 ∧
    ∀ r ∈ reported undisturbedActs, r.Consistent :=
  ⟨by decide +kernel, valid_snapshot_is_image smallWriter_inStep (by decide +kernel)⟩

/-- Four ways to disturb a snapshot that is then reported valid: a reader keeps its
    checkpoint from copying the last commit, a second begin checkpoints under it,
    another shard takes its place in the cache, and another client releases it. -/
def disturbedRuns : List (List (SnapshotAct String)) :=
  [[write 0 "a", .readBegin 0, write 0 "b", .snapshotBegin 1 0 true {}, .snapshotEnd 1 0 {}],
   [.snapshotBegin 1 0 true {}, write 0 "a", .snapshotBegin 2 0 true {}, .snapshotEnd 1 0 {}],
   [.snapshotBegin 1 0 true {}, write 0 "a", .ensureOpen 1 {}, .snapshotEnd 1 0 {}],
   [.snapshotBegin 1 0 true {}, .snapshotEnd 2 0 {}, write 0 "a", .snapshotEnd 1 0 {}]]

theorem disturbedRuns_inconsistent :
    disturbedRuns.Forall fun acts => ∃ r ∈ reported acts, ¬r.Consistent := by
  decide +kernel

end Runs

end SnapshotNode

end Shardlite.Shard
