/-
  Shardlite.Replication.BootstrapSafety

  When a follower keeps clear of snapshots that are not confirmed.  The image is
  installed before the freeze is released, so an answer that says the snapshot was
  invalidated, or no answer at all, comes too late for whatever was installed.
  What helps is that neither happens after a complete copy: no write batch breaks
  the hold while a follower copies, and nothing comes between the installation and
  the answer.
-/
import Shardlite.Replication.Bootstrap
import Shardlite.Shard.SnapshotSafety

namespace Shardlite.Shard

open Storage Replication Function

variable {T : Type}

/-- No snapshot of the shard in progress is marked as broken. -/
def Writer.Clear (w : Writer T) (s : ShardId) : Prop :=
  ∀ entry, w.lru.peek s = some entry → entry.snapshotInvalidated = false

variable {pos : Nat × Nat}

namespace Writer

variable {ctx : ThreadCtx T} {w w' : Writer T} {shard s : ShardId} {env : Env}
  {entry : OpenShard}

theorem Clear.of_lru (h : w.Clear s) (hlru : w'.lru = w.lru) : w'.Clear s := by
  unfold Clear
  rw [hlru]
  exact h

/-- A lookup of any shard leaves no broken hold behind: an entry is as it was, or
    new. -/
theorem Clear.ensured {r : Except Error OpenShard} (h : w.Clear s)
    (heq : w.ensureShard shard env = (r, w')) : w'.Clear s := by
  unfold ensureShard at heq
  cases hmay : env.mayOpen with
  | error e =>
    rw [hmay] at heq
    obtain ⟨-, rfl⟩ := Prod.ext_iff.1 heq
    exact h
  | ok u =>
    rw [hmay] at heq
    obtain ⟨-, rfl⟩ := Prod.ext_iff.1 heq
    intro entry hentry
    rcases Lru.of_peek_getOrOpen hentry with hold | ⟨-, hnew⟩
    · exact h entry hold
    · cases hopens : env.opens with
      | error e =>
        rw [hopens] at hnew
        cases hnew
      | ok u =>
        rw [hopens] at hnew
        obtain rfl := Except.ok.inj hnew
        rfl

theorem exists_ensureShard_ok (w : Writer T) (shard : ShardId) (hmay : env.mayOpen = .ok ())
    (hopens : env.opens = .ok ()) : ∃ entry, (w.ensureShard shard env).1 = .ok entry := by
  unfold ensureShard
  rw [hmay, hopens]
  exact Lru.exists_getOrOpen_ok

section

variable (h : w.Clear s)

include h

theorem Clear.setEntry {e : OpenShard}
    (he : s = shard → e.snapshotInvalidated = false) : (w.setEntry shard e).Clear s := by
  intro entry hentry
  rcases Lru.of_peek_set hentry with hold | ⟨hs, rfl⟩
  · exact h entry hold
  · exact he hs

theorem Clear.drained {r : Except Error (Option Nat)}
    (heq : w.drain ctx shard env = (r, w')) : w'.Clear s := by
  unfold drain at heq
  dsimp only at heq
  split at heq <;>
    obtain ⟨-, rfl⟩ := Prod.ext_iff.1 heq <;>
    exact h

theorem Clear.commitSome (ctx : ThreadCtx T) (shard : ShardId) :
    ∀ txn : Option T, (w.commitSome ctx shard txn).Clear s
  | none => h
  | some _ => h

/-- Only a batch that finds the log too long marks a snapshot as broken. -/
theorem Clear.settle (hentry : s = shard → entry.snapshotInvalidated = false)
    (hwal : s = shard → env.walBytes < ctx.snapshotHoldMaxWal) :
    (w.settle ctx shard env entry).Clear s := by
  unfold Writer.settle
  split_ifs with hhold hfull
  · -- The shard is another one, for its log is short enough.
    exact (h.setEntry fun hs => absurd hfull (not_le.2 (hwal hs))).of_lru rfl
  · exact h
  · exact (h.setEntry fun hs => by exact hentry hs).of_lru rfl

theorem Clear.applyShardBatch (batch : Except Error (Option T))
    (hwal : s = shard → env.walBytes < ctx.snapshotHoldMaxWal) :
    (w.applyShardBatch ctx shard env batch).Clear s := by
  unfold Writer.applyShardBatch
  have hok := @ensureShard_ok T w shard env
  cases hens : w.ensureShard shard env with
  | mk r w₁ =>
    have h₁ := h.ensured hens
    rw [hens] at hok
    cases r with
    | error e => exact h₁
    | ok entry =>
      have hentry : s = shard → entry.snapshotInvalidated = false :=
        fun hs => h₁ entry (hs ▸ hok rfl)
      cases env.gate with
      | error e => exact h₁
      | ok u =>
        cases batch with
        | error e => exact h₁
        | ok txn =>
          dsimp only
          cases hdrain : (w₁.commitSome ctx shard txn).drain ctx shard env with
          | mk r w₂ =>
            have h₂ := (h₁.commitSome ctx shard txn).drained hdrain
            cases r with
            | error e => exact h₂
            | ok highest =>
              have hsettled := h₂.settle hentry hwal
              cases highest with
              | none => exact hsettled
              | some lsn =>
                cases env.quorum with
                | error e => exact h₂
                | ok u => exact hsettled

theorem Clear.beginSnapshot {r : Except Error (Nat × Nat)}
    (heq : w.beginSnapshot ctx shard env = (r, w')) : w'.Clear s := by
  obtain ⟨_, -, hens⟩ | ⟨entry, w₁, r₂, w₂, hens, hdrain, hend⟩ := beginSnapshot_cases heq
  · exact h.ensured hens
  · have h₂ := (h.ensured hens).drained hdrain
    obtain ⟨-, -, rfl⟩ | ⟨_, _, _, -, -, -, rfl⟩ := hend
    · exact h₂
    · exact (h₂.setEntry fun _ => rfl).of_lru rfl

end

theorem clear_of_beginSnapshot (heq : w.beginSnapshot ctx shard env = (.ok pos, w')) :
    w'.Clear shard := by
  obtain ⟨_, he, -⟩ | ⟨entry, w₁, r₂, w₂, hens, hdrain, hend⟩ := beginSnapshot_cases heq
  · cases he
  obtain ⟨_, he, -⟩ | ⟨_, _, _, -, -, -, rfl⟩ := hend
  · cases he
  have hpeek : w₂.lru.peek shard = some entry := by
    have hok := @ensureShard_ok T w shard env
    rw [hens] at hok
    have hw := drain_eq ctx w₁ shard env
    rw [hdrain] at hw
    obtain rfl : w₂ = _ := hw
    exact hok rfl
  intro e he
  have hset : (w₂.lru.set shard _).peek shard = some e := he
  rw [Lru.peek_set shard (Option.isSome_of_eq_some hpeek), if_pos rfl] at hset
  cases hset
  rfl

section

variable (h : w.Clear s)

include h

theorem Clear.endSnapshot (shard : ShardId) (env : Env) :
    (w.endSnapshot shard env).2.Clear s := by
  unfold Writer.endSnapshot
  have hok := @ensureShard_ok T w shard env
  cases hens : w.ensureShard shard env with
  | mk r w₁ =>
    have h₁ := h.ensured hens
    rw [hens] at hok
    cases r with
    | error e => exact h₁
    | ok entry => exact h₁.setEntry fun hs => h₁ entry (hs ▸ hok rfl)

theorem Clear.checkpointShard : (w.checkpointShard shard env).2.Clear s := by
  unfold Writer.checkpointShard
  cases hens : w.ensureShard shard env with
  | mk r w₁ =>
    have h₁ := h.ensured hens
    cases r with
    | error e => exact h₁
    | ok entry =>
      dsimp only
      split_ifs
      · exact h₁
      · split <;> exact h₁.of_lru rfl

theorem Clear.vacuumShard (rebuilt : Except Error T) :
    (w.vacuumShard ctx shard env rebuilt).2.Clear s := by
  unfold Writer.vacuumShard
  cases hens : w.ensureShard shard env with
  | mk r w₁ =>
    have h₁ := h.ensured hens
    cases r with
    | error e => exact h₁
    | ok entry =>
      dsimp only
      split_ifs
      · exact h₁
      · cases rebuilt with
        | error e => exact h₁
        | ok txn =>
          have h₂ : (w₁.commit ctx shard txn).Clear s := h₁
          dsimp only
          split
          · exact h₂
          · exact Clear.drained (w := (w₁.commit ctx shard txn).setFile shard _) h₂ rfl

theorem Clear.schemaOp (ddl : Option (Except Error T)) :
    (w.schemaOp ctx shard env ddl).2.Clear s := by
  unfold Writer.schemaOp
  cases hens : w.ensureShard shard env with
  | mk r w₁ =>
    have h₁ := h.ensured hens
    cases r with
    | error e => exact h₁
    | ok entry =>
      cases ddl with
      | none => exact h₁
      | some ddl =>
        cases env.gate with
        | error e => exact h₁
        | ok u =>
          cases ddl with
          | error e => exact h₁
          | ok txn => exact Clear.drained (w := w₁.commit ctx shard txn) h₁ rfl

theorem Clear.quiesce (last : Bool) : (w.quiesce shard last).Clear s := by
  unfold Writer.quiesce
  cases w.lru.peek shard with
  | none => exact h
  | some e =>
    intro entry hentry
    have hleft : (w.lru.remove shard).peek s = some entry := hentry
    rw [Lru.peek_remove] at hleft
    split_ifs at hleft
    exact h entry hleft

end

end Writer

namespace SnapshotNode

variable {ctx : ThreadCtx T} {n : SnapshotNode T} {client c : ClientId} {shard s : ShardId}
  {env : Env}
variable {act : SnapshotAct T}

theorem clear_snapshotBegin (h : n.writer.Clear s) (sized : Bool) :
    (n.snapshotBegin ctx client shard env sized).writer.Clear s := by
  unfold snapshotBegin
  by_cases hserves : n.Serves client
  · rw [if_pos hserves]
    cases hbegin : n.writer.beginSnapshot ctx shard env with
    | mk r w' =>
      have hw := h.beginSnapshot hbegin
      cases r with
      | error e => exact hw
      | ok pos => cases sized <;> exact hw
  · rw [if_neg hserves]
    exact h

theorem clear_snapshotEnd (h : n.writer.Clear s) :
    (n.snapshotEnd client shard env).writer.Clear s := by
  have hw := h.endSnapshot shard env
  unfold snapshotEnd
  by_cases hserves : n.Serves client
  · rw [if_pos hserves]
    cases hend : n.writer.endSnapshot shard env with
    | mk r w' =>
      rw [hend] at hw
      cases r with
      | error e => exact hw
      | ok valid => cases valid <;> exact hw
  · rw [if_neg hserves]
    exact h

/-- While no batch finds the shard's log too long, nothing marks its snapshot as
    broken. -/
theorem clear_step (h : n.writer.Clear s)
    (hwal : ∀ batch env, act = .batch s batch env → env.walBytes < ctx.snapshotHoldMaxWal) :
    (n.step ctx act).writer.Clear s := by
  cases act with
  | batch shard batch env =>
    exact h.applyShardBatch batch fun hs => hwal batch env (by rw [hs])
  | ensureOpen shard env => exact h.ensured (Prod.mk.eta).symm
  | checkpoint shard env => exact h.checkpointShard
  | vacuum shard rebuilt env => exact h.vacuumShard rebuilt
  | schema shard ddl env => exact h.schemaOp ddl
  | quiesce shard last => exact h.quiesce last
  | readBegin shard | readEnd shard mark | hangUp client => exact h
  | snapshotBegin client shard sized env => exact clear_snapshotBegin h sized
  | giveUp client shard env =>
    show (n.giveUp client shard env).writer.Clear s
    unfold giveUp
    dsimp only
    split_ifs
    · exact h.endSnapshot shard env
    · exact h
  | snapshotEnd client shard env => exact clear_snapshotEnd h
  | release client shard env =>
    show (n.release client shard env).writer.Clear s
    unfold release
    dsimp only
    split_ifs
    · exact h.endSnapshot shard env
    · exact h

theorem conns_setConn {x : Conn} (hne : c ≠ client) : (n.setConn client x).conns c = n.conns c :=
  update_of_ne hne _ _

theorem conns_snapshotBegin (hne : c ≠ client) (sized : Bool) :
    (n.snapshotBegin ctx client shard env sized).conns c = n.conns c := by
  unfold snapshotBegin
  by_cases hserves : n.Serves client
  · rw [if_pos hserves]
    rcases n.writer.beginSnapshot ctx shard env with ⟨e | pos, w'⟩
    · rfl
    · cases sized <;> exact conns_setConn hne
  · rw [if_neg hserves]

theorem conns_snapshotEnd (hne : c ≠ client) :
    (n.snapshotEnd client shard env).conns c = n.conns c := by
  unfold snapshotEnd
  by_cases hserves : n.Serves client
  · rw [if_pos hserves]
    rcases n.writer.endSnapshot shard env with ⟨e | _ | _, w'⟩
    · rfl
    · rfl
    · exact conns_setConn hne
  · rw [if_neg hserves]

theorem conns_step (hne : act.client? ≠ some c) :
    (n.step ctx act).conns c = n.conns c := by
  have hclient {d : ClientId} (hd : act.client? = some d) : c ≠ d := fun h => hne (h ▸ hd)
  cases act with
  | snapshotBegin client shard sized env => exact conns_snapshotBegin (hclient rfl) sized
  | snapshotEnd client shard env => exact conns_snapshotEnd (hclient rfl)
  | hangUp client => exact conns_setConn (hclient rfl)
  | giveUp client shard env =>
    show (n.giveUp client shard env).conns c = n.conns c
    unfold giveUp
    dsimp only
    split_ifs
    · exact conns_setConn (hclient rfl)
    · rfl
  | release client shard env =>
    show (n.release client shard env).conns c = n.conns c
    unfold release
    dsimp only
    split_ifs
    · exact conns_setConn (hclient rfl)
    · rfl
  | _ => rfl

/-- A begin that is answered leaves its connection open and its shard unmarked. -/
theorem begun_of_beginReply {sized : Bool}
    (h : n.beginReply ctx client shard env sized = some pos) :
    (n.snapshotBegin ctx client shard env sized).Serves client ∧
      (n.snapshotBegin ctx client shard env sized).writer.Clear shard := by
  unfold beginReply at h
  split_ifs at h with hserves
  obtain ⟨hserves, hsized⟩ := hserves
  subst hsized
  unfold snapshotBegin
  rw [if_pos hserves]
  cases hbegin : n.writer.beginSnapshot ctx shard env with
  | mk r w' =>
    cases r with
    | error e =>
      rw [hbegin] at h
      cases h
    | ok pos =>
      refine ⟨?_, Writer.clear_of_beginSnapshot hbegin⟩
      show (update n.conns client _ client).closed = false ∧
        (update n.conns client _ client).unsized = []
      rw [update_self]
      exact hserves

/-- With no mark on the shard, an end that is served says the snapshot is valid. -/
theorem endReply_of_clear (hserves : n.Serves client) (h : n.writer.Clear shard)
    (hmay : env.mayOpen = .ok ()) (hopens : env.opens = .ok ()) :
    n.endReply client shard env = some true := by
  unfold endReply
  rw [if_pos hserves]
  unfold Writer.endSnapshot
  have hok := @Writer.ensureShard_ok T n.writer shard env
  have hval := Writer.exists_ensureShard_ok n.writer shard hmay hopens
  cases hens : n.writer.ensureShard shard env with
  | mk r w₁ =>
    rw [hens] at hok hval
    obtain ⟨entry, rfl⟩ : ∃ entry, r = .ok entry := hval
    have hclear := h.ensured hens entry (hok rfl)
    show some (!entry.snapshotInvalidated) = some true
    rw [hclear]
    rfl

end SnapshotNode

end Shardlite.Shard

namespace Shardlite.Replication

open Shard

namespace BootstrapNet

variable {T B : Type} {cfg : BootstrapConfig T B} {w : BootstrapNet T B}

/-- What no bootstrap may do: leave another file or position behind when its
    snapshot was not confirmed, or build on a file that was not. -/
def Unadopted (w : BootstrapNet T B) : Prop :=
  (∀ c ∈ w.concluded, c.report ≠ .valid → c.after = c.before) ∧
    ∀ onRejected ∈ w.applied, onRejected = false

instance [DecidableEq B] : Decidable w.Unadopted := inferInstanceAs (Decidable (_ ∧ _))

/-- The shard's file was replaced and nobody has confirmed the snapshot yet. -/
def Unconfirmed (w : BootstrapNet T B) : Prop := w.phase = .ending true

instance : Decidable w.Unconfirmed := inferInstanceAs (Decidable (_ = _))

/-- **What keeps a follower clear of rejected snapshots.**  While it bootstraps, no
    write batch on the primary finds the shard's log at the limit of a hold; and once
    its file is replaced, it does not crash and its release is served and answered. -/
def Steady (cfg : BootstrapConfig T B) (w : BootstrapNet T B) : BootstrapAct T → Prop
  | .primary (.batch shard _ env) =>
    w.phase ≠ .idle → shard = cfg.shard → env.walBytes < cfg.ctx.snapshotHoldMaxWal
  | .release delivery env =>
    w.Unconfirmed → delivery = .answered ∧ env.mayOpen = .ok () ∧ env.opens = .ok ()
  | .crash => ¬ w.Unconfirmed
  | _ => True

instance {act : BootstrapAct T} : Decidable (Steady cfg w act) := by
  unfold Steady
  split <;> infer_instance

/-- A bootstrap in progress has a connection that is served, a hold that is not
    broken, and the old file until it is replaced. -/
structure InProgress (cfg : BootstrapConfig T B) (w : BootstrapNet T B) : Prop where
  serves : w.primary.Serves w.conn
  clear : w.primary.writer.Clear cfg.shard
  same : ¬ w.Unconfirmed → w.copy = w.before

structure Inv (cfg : BootstrapConfig T B) (w : BootstrapNet T B) : Prop where
  unadopted : w.Unadopted
  confirmed : w.rejected = false
  inProgress : w.phase ≠ .idle → w.InProgress cfg

variable {report : EndReport}

theorem phase_conclude : (w.conclude report).phase = .idle := by
  unfold conclude
  cases hphase : w.phase with
  | idle => exact hphase
  | copying id written | ending replaced => rfl

namespace Inv

variable (h : w.Inv cfg)

include h

variable {delivery : Delivery} {env : Env}

theorem primaryStep {act : SnapshotAct T} (hok : Steady cfg w (.primary act)) :
    (w.primaryStep cfg act).Inv cfg := by
  unfold BootstrapNet.primaryStep
  split_ifs with hmine
  · exact h
  · refine ⟨h.unadopted, h.confirmed, fun hphase => ?_⟩
    have hp := h.inProgress hphase
    have hconn : act.client? ≠ some w.conn := fun hc => hmine ⟨hphase, hc⟩
    refine ⟨?_, SnapshotNode.clear_step hp.clear fun batch env hact => ?_, hp.same⟩
    · show (_ : Conn).closed = false ∧ (_ : Conn).unsized = []
      rw [SnapshotNode.conns_step hconn]
      exact hp.serves
    · subst hact
      exact hok hphase rfl

theorem setPrimary (hphase : w.phase = .idle) (primary : SnapshotNode T) :
    ({ w with primary } : BootstrapNet T B).Inv cfg :=
  ⟨h.unadopted, h.confirmed, fun hne => absurd hphase hne⟩

theorem beginStep {conn : ClientId} {sized staged : Bool} :
    (w.beginStep cfg conn sized staged delivery env).Inv cfg := by
  unfold BootstrapNet.beginStep
  by_cases hskip : w.phase ≠ .idle ∨ delivery = .requestLost
  · rw [if_pos hskip]
    exact h
  · rw [if_neg hskip]
    have hphase : w.phase = .idle := not_not.1 (not_or.1 hskip).1
    cases hreply : w.primary.beginReply cfg.ctx conn cfg.shard env sized with
    | none => exact h.setPrimary hphase _
    | some pos =>
      have hbegun := SnapshotNode.begun_of_beginReply hreply
      cases delivery with
      | requestLost | replyLost => exact h.setPrimary hphase _
      | answered =>
        cases staged with
        | true | false =>
          exact ⟨h.unadopted, h.confirmed,
            fun _ => ⟨hbegun.1, hbegun.2, fun _ => rfl⟩⟩

theorem transfer {staging : Staging B} {phase : Phase} (hphase : w.phase ≠ .idle)
    (hold : ¬ w.Unconfirmed) : ({ w with staging, phase } : BootstrapNet T B).Inv cfg := by
  have hp := h.inProgress hphase
  exact ⟨h.unadopted, h.confirmed,
    fun _ => ⟨hp.serves, hp.clear, fun _ => hp.same hold⟩⟩

theorem chunkStep {len : Nat} {fault : Option Nat} :
    (w.chunkStep cfg len delivery fault).Inv cfg := by
  unfold BootstrapNet.chunkStep
  cases hphase : w.phase with
  | idle | ending replaced => exact h
  | copying id written =>
    have hne : w.phase ≠ .idle := by rw [hphase]; exact Phase.noConfusion
    have hold : ¬ w.Unconfirmed := by rw [Unconfirmed, hphase]; exact Phase.noConfusion
    dsimp only
    split_ifs with hmore hdata
    · cases fault with
      | none | some short => exact h.transfer hne hold
    · exact h.transfer hne hold
    · exact h

theorem finishStep {outcome : Install} : (w.finishStep outcome).Inv cfg := by
  unfold BootstrapNet.finishStep
  cases hphase : w.phase with
  | idle | ending replaced => exact h
  | copying id written =>
    have hne : w.phase ≠ .idle := by rw [hphase]; exact Phase.noConfusion
    have hold : ¬ w.Unconfirmed := by rw [Unconfirmed, hphase]; exact Phase.noConfusion
    have hp := h.inProgress hne
    dsimp only
    split_ifs with hdone
    · refine ⟨h.unadopted, h.confirmed,
        fun _ => ⟨hp.serves, hp.clear, fun hkept => ?_⟩⟩
      cases outcome with
      | refused => exact hp.same hold
      | replaced | installed => exact absurd rfl hkept
    · exact h

/-- A bootstrap may end in any way that does not reject a file already installed. -/
theorem conclude (hreport : w.Unconfirmed → report = .valid) :
    (w.conclude report).Inv cfg := by
  have hlog (hphase : w.phase ≠ .idle) :
      ∀ c ∈ (⟨w.before, w.copy, report⟩ : Concluded B) :: w.concluded,
        c.report ≠ .valid → c.after = c.before := by
    intro c hc hbad
    rcases List.mem_cons.1 hc with rfl | hc
    · exact (h.inProgress hphase).same fun hun => hbad (hreport hun)
    · exact h.unadopted.1 c hc hbad
  unfold BootstrapNet.conclude
  cases hphase : w.phase with
  | idle => exact h
  | copying id written =>
    exact ⟨⟨hlog (by rw [hphase]; exact Phase.noConfusion), h.unadopted.2⟩, h.confirmed,
      fun hne => absurd rfl hne⟩
  | ending replaced =>
    refine ⟨⟨hlog (by rw [hphase]; exact Phase.noConfusion), h.unadopted.2⟩, ?_,
      fun hne => absurd rfl hne⟩
    cases replaced with
    | false => exact h.confirmed
    | true =>
      rw [hreport hphase]
      rfl

theorem endStep (hok : Steady cfg w (.release delivery env)) :
    (w.endStep cfg delivery env).Inv cfg := by
  unfold BootstrapNet.endStep
  cases hphase : w.phase with
  | idle | copying id written => exact h
  | ending replaced =>
    have hp := h.inProgress (by rw [hphase]; exact Phase.noConfusion)
    cases delivery with
    | requestLost => exact h.conclude fun hun => Delivery.noConfusion (hok hun).1
    | replyLost =>
      exact (h.conclude fun hun => Delivery.noConfusion (hok hun).1).setPrimary
        phase_conclude _
    | answered =>
      refine (h.conclude fun hun => ?_).setPrimary phase_conclude _
      obtain ⟨-, hmay, hopens⟩ := hok hun
      rw [SnapshotNode.endReply_of_clear hp.serves hp.clear hmay hopens]

theorem framesStep {epoch : Nat} {txns : List (StreamTxn T)} :
    (w.framesStep cfg epoch txns).Inv cfg := by
  unfold BootstrapNet.framesStep
  split_ifs with hphase
  · cases w.copy.apply cfg.app epoch txns with
    | error gap => exact h
    | ok copy =>
      refine ⟨⟨h.unadopted.1, fun b hb => ?_⟩, h.confirmed, fun hne => absurd hphase hne⟩
      rcases List.mem_cons.1 hb with rfl | hb
      · exact h.confirmed
      · exact h.unadopted.2 b hb
  · exact h

theorem step {act : BootstrapAct T} (hok : Steady cfg w act) : (w.step cfg act).Inv cfg := by
  cases act with
  | primary act => exact h.primaryStep hok
  | begin conn sized staged delivery env => exact h.beginStep
  | chunk len delivery fault => exact h.chunkStep
  | finish outcome => exact h.finishStep
  | release delivery env => exact h.endStep hok
  | crash => exact h.conclude fun hun => absurd hun hok
  | frames epoch txns => exact h.framesStep

end Inv

/-- **No rejected image is adopted.**  However the primary's writes, evictions and
    disconnections fall between the steps of a bootstrap, a steady run in which a
    release is refused or lost leaves the follower with the file and the position it
    had, and no frames are applied to a file whose snapshot was not confirmed. -/
theorem rejected_never_adopted {primary : SnapshotNode T} {copy : Copy (List B)}
    {acts : List (BootstrapAct T)}
    (hacts : Machine.Meets (step cfg) (Steady cfg) { primary, copy, before := copy } acts) :
    (Machine.run (step cfg) { primary, copy, before := copy } acts).Unadopted := by
  have hinit : ({ primary, copy, before := copy } : BootstrapNet T B).Inv cfg :=
    ⟨⟨nofun, nofun⟩, rfl,
      fun hne => absurd rfl hne⟩
  exact (Machine.invariant_run (BootstrapNet.step cfg) (I := Inv cfg)
    (fun _ _ hok h => h.step hok) hinit hacts).unadopted

/-! A file is the list of its rows here, and a transaction adds one. -/

section Runs

def rowsCfg : BootstrapConfig String String where
  ctx := SnapshotNode.smallCtx
  shard := 0
  render := id
  app := fun rows row => rows ++ [row]

/-- A primary with one row, and a follower that holds none of it. -/
def rowsStart : BootstrapNet String String :=
  { primary := { writer := SnapshotNode.smallWriter }, copy := ⟨[], {}⟩, before := ⟨[], {}⟩ }

def rowsRun (acts : List (BootstrapAct String)) : BootstrapNet String String :=
  Machine.run (step rowsCfg) rowsStart acts

/-- A bootstrap that loses its connection while it copies, and one that succeeds with
    writes on the primary before and after the installation. -/
def steadyActs : List (BootstrapAct String) :=
  [.begin 1 true true .answered {}, .chunk 1 .requestLost none, .release .requestLost {},
    .primary (.hangUp 1), .primary (.release 1 0 {}),
    .primary (.batch 0 (.ok (some "a")) {}), .begin 2 true true .answered {},
    .chunk 1 .answered none, .primary (.batch 0 (.ok (some "b")) {}), .chunk 5 .answered none,
    .finish .installed, .primary (.batch 0 (.ok (some "c")) {}), .release .answered {},
    .frames 1 [⟨2, "b"⟩, ⟨3, "c"⟩]]

theorem steadyActs_unadopted :
    (rowsRun steadyActs).concluded.map (·.report) = [.valid, .lost] ∧
      (rowsRun steadyActs).copy = ⟨["table", "a", "b", "c"], ⟨1, 3⟩⟩ ∧
      (rowsRun steadyActs).Unadopted :=
  ⟨by decide +kernel, by decide +kernel, rejected_never_adopted (by decide +kernel)⟩

/-- The hold is broken while the follower copies; or the follower dies between the
    installation and the answer.  Either way frames follow. -/
def unsteadyRuns : List (List (BootstrapAct String)) :=
  [[.begin 1 true true .answered {}, .chunk 5 .answered none,
      .primary (.batch 0 (.ok (some "a")) { walBytes := 100 }), .finish .installed,
      .release .answered {}, .frames 1 [⟨1, "a"⟩]],
   [.begin 1 true true .answered {}, .chunk 5 .answered none, .finish .installed, .crash,
      .frames 1 [⟨1, "a"⟩]]]

theorem unsteadyRuns_adopted :
    unsteadyRuns.Forall fun acts =>
      (∃ c ∈ (rowsRun acts).concluded, c.report ≠ .valid ∧ c.after ≠ c.before) ∧
        true ∈ (rowsRun acts).applied := by
  decide +kernel

end Runs

end BootstrapNet

end Shardlite.Replication
