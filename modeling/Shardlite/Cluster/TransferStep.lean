/-
  Shardlite.Cluster.TransferStep

  What a transfer command does, exactly.  `TransferMove` says when a command takes effect on
  its operation and what it makes of it; `Catalog.TransferStep` adds the placements, which
  only the commit and the last step touch.  A command succeeds in the phase that it is for if
  and only if it takes effect as these relations say.
-/
import Shardlite.Cluster.SplitEffect

namespace Shardlite.Cluster

/-- What becomes of an operation under a command that takes effect. -/
inductive TransferMove (op : CatalogOperation) : TransferProgress → CatalogOperation → Prop where
  | beginSnapshot (hphase : op.phase = .planned) :
      TransferMove op .beginSnapshot { op with phase := .snapshotting }
  | snapshotInstalled {epoch lsn : Nat} (hphase : op.phase = .snapshotting) (hzero : epoch ≠ 0) :
      TransferMove op (.snapshotInstalled epoch lsn)
        { op with
          streamEpoch := some epoch, snapshotLsn := some lsn, durableLsn := some lsn
          phase := .catchingUp }
  | catchUp {epoch lsn : Nat} (hphase : op.phase = .catchingUp)
      (hepoch : op.streamEpoch = some epoch) (hle : op.durableLsn.getD 0 ≤ lsn) :
      TransferMove op (.catchUp epoch lsn) { op with durableLsn := some lsn }
  | prepare (hphase : op.phase = .catchingUp) :
      TransferMove op .prepare { op with phase := .prepared }
  | beginFencing (hphase : op.phase = .prepared) :
      TransferMove op .beginFencing { op with phase := .fencing }
  | finalLsn {epoch lsn : Nat} (hphase : op.phase = .fencing)
      (hepoch : op.streamEpoch = some epoch) (hle : op.durableLsn.getD 0 ≤ lsn) :
      TransferMove op (.finalLsn epoch lsn) { op with finalLsn := some lsn }
  | restart {epoch lsn : Nat} (hphase : op.phase = .fencing) (hzero : epoch ≠ 0)
      (hnew : op.streamEpoch ≠ some epoch) :
      TransferMove op (.restartFencedSource epoch lsn)
        { op with
          streamEpoch := some epoch, snapshotLsn := none, durableLsn := none
          finalLsn := some lsn }
  /-- This very restart is recorded, and nothing was installed since. -/
  | restartAgain {epoch lsn : Nat} (hphase : op.phase = .fencing) (hzero : epoch ≠ 0)
      (hepoch : op.streamEpoch = some epoch) (hfinal : op.finalLsn = some lsn)
      (hsnapshot : op.snapshotLsn = none) :
      TransferMove op (.restartFencedSource epoch lsn) op
  | fencedBootstrap {epoch lsn : Nat} (hphase : op.phase = .fencing)
      (hepoch : op.streamEpoch = some epoch) (hle : op.finalLsn.getD 0 ≤ lsn) :
      TransferMove op (.fencedBootstrap epoch lsn)
        { op with snapshotLsn := some lsn, durableLsn := some lsn }
  | fencedCatchUp {epoch lsn : Nat} (hphase : op.phase = .fencing)
      (hepoch : op.streamEpoch = some epoch) (hle : op.durableLsn.getD 0 ≤ lsn) :
      TransferMove op (.fencedCatchUp epoch lsn) { op with durableLsn := some lsn }
  | commit {final : Nat} (hphase : op.phase = .fencing) (hsnapshot : op.snapshotLsn ≠ none)
      (hfinal : op.finalLsn = some final) (hle : final ≤ op.durableLsn.getD 0) :
      TransferMove op .commit { op with phase := .committed }
  | beginCleanup (hphase : op.phase = .committed) :
      TransferMove op .beginCleanup { op with phase := .cleaning }
  | complete (hphase : op.phase = .cleaning) :
      TransferMove op .complete { op with phase := .complete }

def TransferProgress.isFor (phase : OperationPhase) : TransferProgress → Bool
  | .beginSnapshot => phase = .planned
  | .snapshotInstalled _ _ => phase = .snapshotting
  | .catchUp _ _ | .prepare => phase = .catchingUp
  | .beginFencing => phase = .prepared
  | .finalLsn _ _ | .restartFencedSource _ _ | .fencedBootstrap _ _ | .fencedCatchUp _ _
  | .commit => phase = .fencing
  | .beginCleanup => phase = .committed
  | .complete => phase = .cleaning
  | .abort _ => phase.mayAbort

theorem TransferMove.isFor {op op' : CatalogOperation} {progress : TransferProgress}
    (h : TransferMove op progress op') : progress.isFor op.phase = true := by
  cases h <;> simpa [TransferProgress.isFor]

def TransferProgress.places : TransferProgress → Bool
  | .commit | .complete => true
  | _ => false

namespace Catalog

variable {c c' : Catalog} {id : Nat} {op op' : CatalogOperation} {progress : TransferProgress}

/-! ## Commands that rewrite their operation -/

/-- The operation is found and moves as the relation says. -/
def TransferMoved (c : Catalog) (id : Nat) (progress : TransferProgress) (c' : Catalog) : Prop :=
  ∃ op op', c.operations.get? id = some op ∧ op.kind = .transfer ∧ TransferMove op progress op' ∧
    c' = c.setOperation id op'

variable {epoch lsn : Nat}

/-- A command that reports a position: it must be of the operation's stream, and not behind a
    bound that the operation sets. -/
theorem report_iff {phase : OperationPhase} (bound : CatalogOperation → Nat)
    (mismatch behind : CatalogOperation → Error) {next : CatalogOperation → CatalogOperation}
    (hnext : ∀ op, op.phase = phase → op.streamEpoch = some epoch → bound op ≤ lsn →
      TransferMove op progress (next op))
    (hinv : ∀ op op', TransferMove op progress op' →
      op.phase = phase ∧ op.streamEpoch = some epoch ∧ bound op ≤ lsn ∧ op' = next op) :
    (do let op ← c.operationIn id .transfer phase
        refuseIf (op.streamEpoch ≠ some epoch) (mismatch op)
        refuseIf (lsn < bound op) (behind op)
        return c.setOperation id (next op)) = .ok c' ↔ c.TransferMoved id progress c' := by
  simp only [bind_eq_ok, operationIn_eq_ok, refuseIf_eq_ok, not_not, not_lt, pure_eq_ok]
  constructor
  · rintro ⟨op, ⟨hfound, hkind, hphase⟩, -, hepoch, -, hle, rfl⟩
    exact ⟨op, _, hfound, hkind, hnext op hphase hepoch hle, rfl⟩
  · rintro ⟨op, op', hfound, hkind, hmove, rfl⟩
    obtain ⟨hphase, hepoch, hle, rfl⟩ := hinv op op' hmove
    exact ⟨op, ⟨hfound, hkind, hphase⟩, (), hepoch, (), hle, rfl⟩

theorem beginSnapshot_iff : c.beginSnapshot id = .ok c' ↔ c.TransferMoved id .beginSnapshot c' :=
  rewrites_iff (fun _ => .ok ()) (fun _ hphase _ => .beginSnapshot hphase)
    fun | _, _, .beginSnapshot hphase => ⟨hphase, rfl, rfl⟩

theorem prepareTransfer_iff : c.prepareTransfer id = .ok c' ↔ c.TransferMoved id .prepare c' :=
  rewrites_iff (fun _ => .ok ()) (fun _ hphase _ => .prepare hphase)
    fun | _, _, .prepare hphase => ⟨hphase, rfl, rfl⟩

theorem beginFencing_iff : c.beginFencing id = .ok c' ↔ c.TransferMoved id .beginFencing c' :=
  rewrites_iff (fun _ => .ok ()) (fun _ hphase _ => .beginFencing hphase)
    fun | _, _, .beginFencing hphase => ⟨hphase, rfl, rfl⟩

theorem beginCleanup_iff : c.beginCleanup id = .ok c' ↔ c.TransferMoved id .beginCleanup c' :=
  rewrites_iff (fun _ => .ok ()) (fun _ hphase _ => .beginCleanup hphase)
    fun | _, _, .beginCleanup hphase => ⟨hphase, rfl, rfl⟩

theorem snapshotInstalled_iff :
    c.snapshotInstalled id epoch lsn = .ok c' ↔
      c.TransferMoved id (.snapshotInstalled epoch lsn) c' := by
  simp only [Catalog.snapshotInstalled, bind_eq_ok, operationIn_eq_ok, refuseIf_eq_ok, pure_eq_ok]
  constructor
  · rintro ⟨-, hzero, op, ⟨hfound, hkind, hphase⟩, rfl⟩
    exact ⟨op, _, hfound, hkind, .snapshotInstalled hphase hzero, rfl⟩
  · rintro ⟨op, op', hfound, hkind, hmove, rfl⟩
    cases hmove with
    | snapshotInstalled hphase hzero => exact ⟨(), hzero, op, ⟨hfound, hkind, hphase⟩, rfl⟩

theorem recordCatchUp_iff :
    c.recordCatchUp id epoch lsn = .ok c' ↔ c.TransferMoved id (.catchUp epoch lsn) c' :=
  report_iff _ _ _ (fun _ => .catchUp)
    fun | _, _, .catchUp hphase hepoch hle => ⟨hphase, hepoch, hle, rfl⟩

theorem recordFencedCatchUp_iff :
    c.recordFencedCatchUp id epoch lsn = .ok c' ↔
      c.TransferMoved id (.fencedCatchUp epoch lsn) c' :=
  report_iff _ _ _ (fun _ => .fencedCatchUp)
    fun | _, _, .fencedCatchUp hphase hepoch hle => ⟨hphase, hepoch, hle, rfl⟩

theorem recordFinalLsn_iff :
    c.recordFinalLsn id epoch lsn = .ok c' ↔ c.TransferMoved id (.finalLsn epoch lsn) c' :=
  report_iff _ _ _ (fun _ => .finalLsn)
    fun | _, _, .finalLsn hphase hepoch hle => ⟨hphase, hepoch, hle, rfl⟩

theorem recordFencedBootstrap_iff :
    c.recordFencedBootstrap id epoch lsn = .ok c' ↔
      c.TransferMoved id (.fencedBootstrap epoch lsn) c' :=
  report_iff _ _ _ (fun _ => .fencedBootstrap)
    fun | _, _, .fencedBootstrap hphase hepoch hle => ⟨hphase, hepoch, hle, rfl⟩

theorem setOperation_self (hfound : c.operations.get? id = some op) : c.setOperation id op = c := by
  rw [setOperation, OrdMap.insert_of_get? hfound]

theorem restartFencedStream_iff :
    c.restartFencedStream id epoch lsn = .ok c' ↔
      c.TransferMoved id (.restartFencedSource epoch lsn) c' := by
  simp only [restartFencedStream, bind_eq_ok, operationIn_eq_ok, refuseIf_eq_ok]
  constructor
  · rintro ⟨-, hzero, op, ⟨hfound, hkind, hphase⟩, h⟩
    split_ifs at h with hepoch hagain
    · obtain rfl := Except.ok.inj h
      exact ⟨op, op, hfound, hkind, .restartAgain hphase hzero hepoch hagain.1 hagain.2,
        (setOperation_self hfound).symm⟩
    · exact ⟨op, _, hfound, hkind, .restart hphase hzero hepoch, (Except.ok.inj h).symm⟩
  · rintro ⟨op, op', hfound, hkind, hmove, rfl⟩
    refine ⟨(), ?_, op, ⟨hfound, hkind, ?_⟩, ?_⟩
    · cases hmove <;> assumption
    · cases hmove <;> assumption
    · cases hmove with
      | restart hphase hzero hnew =>
        rw [if_neg hnew]
        rfl
      | restartAgain hphase hzero hepoch hfinal hsnapshot =>
        rw [if_pos hepoch, if_pos ⟨hfinal, hsnapshot⟩, setOperation_self hfound]
        rfl

/-! ## The commands that touch the placements -/

/-- What the commit of a transfer needs of its operation. -/
structure CommitsTransfer (op : CatalogOperation) (shard : ShardId) (source destination : NodeId)
    (generation : Nat) : Prop where
  kind : op.kind = .transfer
  phase : op.phase = .fencing
  shard : op.shard = some shard
  source : op.source = some source
  destination : op.destination = some destination
  generation : op.expectedGeneration = some generation
  snapshot : op.snapshotLsn ≠ none
  final : ∃ final, op.finalLsn = some final ∧ final ≤ op.durableLsn.getD 0

/-- The placement once the destination is the primary. -/
def movedPlacement (placement : ReplicaSet) (source destination : NodeId) : ReplicaSet :=
  let replicas := placement.replicas.filter (· ≠ destination)
  { generation := placement.generation + 1
    primary := destination
    replicas :=
      if source ∈ replicas then replicas else (replicas ++ [source]).insertionSort (· ≤ ·) }

theorem commitTransfer_iff :
    c.commitTransfer id = .ok c' ↔
      ∃ op shard source destination generation placement, c.operations.get? id = some op ∧
        CommitsTransfer op shard source destination generation ∧
        c.placements.get? shard = some placement ∧
        (placement.generation = generation ∧ placement.primary = source) ∧
        placement.generation + 1 < u64Size ∧
        c' = { c.setOperation id { op with phase := .committed } with
          placements := c.placements.insert shard (movedPlacement placement source destination) } := by
  simp only [commitTransfer, bind_eq_ok, operationIn_eq_ok, expect_eq_ok, okOr_eq_ok,
    refuseIf_eq_ok, not_or, not_not, not_lt, checkedSucc_eq_some_iff, pure_eq_ok]
  constructor
  · rintro ⟨op, ⟨hfound, hkind, hphase⟩, shard, hshard, source, hsource, destination, hdest,
      generation, hgeneration, -, hsnapshot, final, hfinal, -, hdurable, placement, hplace, -, hsame,
      next, ⟨hfits, rfl⟩, rfl⟩
    exact ⟨op, shard, source, destination, generation, placement, hfound, ⟨hkind, hphase, hshard,
      hsource, hdest, hgeneration, hsnapshot, final, hfinal, hdurable⟩, hplace, hsame, hfits, rfl⟩
  · rintro ⟨op, shard, source, destination, generation, placement, hfound, hop, hplace, hsame, hfits,
      rfl⟩
    obtain ⟨final, hfinal, hdurable⟩ := hop.final
    exact ⟨op, ⟨hfound, hop.kind, hop.phase⟩, shard, hop.shard, source, hop.source, destination,
      hop.destination, generation, hop.generation, (), hop.snapshot, final, hfinal, (), hdurable,
      placement, hplace, (), hsame, _, ⟨hfits, rfl⟩, rfl⟩

inductive Cleaned (c : Catalog) (op : CatalogOperation) : OrdMap ShardId ReplicaSet → Prop where
  | retain (hretain : op.retainSourceReplica = true) : Cleaned c op c.placements
  | drop {shard : ShardId} {placement : ReplicaSet} (hretain : op.retainSourceReplica = false)
      (hshard : op.shard = some shard) (hplace : c.placements.get? shard = some placement) :
      Cleaned c op (c.placements.insert shard
        { placement with replicas := placement.replicas.filter fun node => some node ≠ op.source })

theorem completeTransfer_iff :
    c.completeTransfer id = .ok c' ↔
      ∃ op placements, c.operations.get? id = some op ∧ op.kind = .transfer ∧ op.phase = .cleaning ∧
        c.Cleaned op placements ∧
        c' = { c.setOperation id { op with phase := .complete } with placements } := by
  simp only [completeTransfer, bind_eq_ok, operationIn_eq_ok]
  constructor
  · rintro ⟨op, ⟨hfound, hkind, hphase⟩, h⟩
    split_ifs at h with hretain
    · exact ⟨op, _, hfound, hkind, hphase, .retain hretain, (Except.ok.inj h).symm⟩
    · simp only [bind_eq_ok, expect_eq_ok, okOr_eq_ok, pure_eq_ok] at h
      obtain ⟨shard, hshard, placement, hplace, rfl⟩ := h
      exact ⟨op, _, hfound, hkind, hphase, .drop (by simpa using hretain) hshard hplace, rfl⟩
  · rintro ⟨op, placements, hfound, hkind, hphase, hcleaned, rfl⟩
    refine ⟨op, ⟨hfound, hkind, hphase⟩, ?_⟩
    cases hcleaned with
    | retain hretain =>
      rw [if_pos hretain]
      rfl
    | drop hretain hshard hplace =>
      rw [if_neg (by simp [hretain])]
      exact bind_eq_ok.2 ⟨_, expect_eq_ok.2 hshard, bind_eq_ok.2 ⟨_, okOr_eq_ok.2 hplace, rfl⟩⟩

/-! ## All commands -/

/-- What a command that takes effect does to the catalog. -/
inductive TransferStep (c : Catalog) (id : Nat) (op : CatalogOperation) :
    TransferProgress → Catalog → Prop where
  | move {progress : TransferProgress} {op' : CatalogOperation} (hkind : op.kind = .transfer)
      (hmove : TransferMove op progress op') (hplain : progress.places = false) :
      TransferStep c id op progress (c.setOperation id op')
  | commit {shard : ShardId} {source destination : NodeId} {generation : Nat}
      {placement : ReplicaSet} (hop : CommitsTransfer op shard source destination generation)
      (hplace : c.placements.get? shard = some placement)
      (hsame : placement.generation = generation ∧ placement.primary = source)
      (hfits : placement.generation + 1 < u64Size) :
      TransferStep c id op .commit
        { c.setOperation id { op with phase := .committed } with
          placements := c.placements.insert shard (movedPlacement placement source destination) }
  | complete {placements : OrdMap ShardId ReplicaSet} (hkind : op.kind = .transfer)
      (hphase : op.phase = .cleaning) (hcleaned : c.Cleaned op placements) :
      TransferStep c id op .complete
        { c.setOperation id { op with phase := .complete } with placements }
  | abort {reason : String} (hmay : op.phase.mayAbort = true) :
      TransferStep c id op (.abort reason)
        (c.setOperation id { op with phase := .aborted, lastError := some reason })

theorem transferMoved_iff_step (hfound : c.operations.get? id = some op)
    (hplain : progress.places = false) (habort : ∀ reason, progress ≠ .abort reason) :
    c.TransferMoved id progress c' ↔ c.TransferStep id op progress c' := by
  constructor
  · rintro ⟨op₁, op', hop, hkind, hmove, rfl⟩
    cases hop.symm.trans hfound
    exact .move hkind hmove hplain
  · intro h
    cases h with
    | move hkind hmove _ => exact ⟨op, _, hfound, hkind, hmove, rfl⟩
    | commit | complete => exact absurd hplain (by simp [TransferProgress.places])
    | abort => exact absurd rfl (habort _)

theorem guarded_moved_iff (hfound : c.operations.get? id = some op) {guard : Prop} [Decidable guard]
    {result : Except Error Catalog} (hiff : result = .ok c' ↔ c.TransferMoved id progress c')
    (hguard : decide guard = true) (hplain : progress.places = false := by rfl)
    (habort : ∀ reason, progress ≠ .abort reason := by simp) :
    ∃ r, (if guard then some result else none) = some r ∧
      (r = .ok c' ↔ c.TransferStep id op progress c') :=
  ⟨_, if_pos (of_decide_eq_true hguard),
    hiff.trans (transferMoved_iff_step hfound hplain habort)⟩

theorem progressTransfer_iff (c' : Catalog) (hfound : c.operations.get? id = some op)
    (hfor : progress.isFor op.phase = true) :
    ∃ result, c.progressTransfer id op.phase progress = some result ∧
      (result = .ok c' ↔ c.TransferStep id op progress c') := by
  cases progress with
  | beginSnapshot =>
    exact guarded_moved_iff hfound beginSnapshot_iff hfor
  | snapshotInstalled epoch lsn =>
    exact guarded_moved_iff hfound snapshotInstalled_iff hfor
  | catchUp epoch lsn =>
    exact guarded_moved_iff hfound recordCatchUp_iff hfor
  | prepare =>
    exact guarded_moved_iff hfound prepareTransfer_iff hfor
  | beginFencing =>
    exact guarded_moved_iff hfound beginFencing_iff hfor
  | finalLsn epoch lsn =>
    exact guarded_moved_iff hfound recordFinalLsn_iff hfor
  | restartFencedSource epoch lsn =>
    exact guarded_moved_iff hfound restartFencedStream_iff hfor
  | fencedBootstrap epoch lsn =>
    exact guarded_moved_iff hfound recordFencedBootstrap_iff hfor
  | fencedCatchUp epoch lsn =>
    exact guarded_moved_iff hfound recordFencedCatchUp_iff hfor
  | beginCleanup =>
    exact guarded_moved_iff hfound beginCleanup_iff hfor
  | commit =>
    refine ⟨_, if_pos (by simpa [TransferProgress.isFor] using hfor), commitTransfer_iff.trans ?_⟩
    constructor
    · rintro ⟨op₁, shard, source, destination, generation, placement, hop, hcommit, hplace, hsame,
        hfits, rfl⟩
      cases hop.symm.trans hfound
      exact .commit hcommit hplace hsame hfits
    · intro h
      cases h with
      | move _ _ hplain => exact absurd hplain (by simp [TransferProgress.places])
      | commit hcommit hplace hsame hfits =>
        exact ⟨op, _, _, _, _, _, hfound, hcommit, hplace, hsame, hfits, rfl⟩
  | complete =>
    refine ⟨_, if_pos (by simpa [TransferProgress.isFor] using hfor), completeTransfer_iff.trans ?_⟩
    constructor
    · rintro ⟨op₁, placements, hop, hkind, hphase, hcleaned, rfl⟩
      cases hop.symm.trans hfound
      exact .complete hkind hphase hcleaned
    · intro h
      cases h with
      | move _ _ hplain => exact absurd hplain (by simp [TransferProgress.places])
      | complete hkind hphase hcleaned => exact ⟨op, _, hfound, hkind, hphase, hcleaned, rfl⟩
  | abort reason =>
    refine ⟨_, if_pos hfor, abortOperation_iff.trans ?_⟩
    constructor
    · rintro ⟨op₁, hop, hmay, rfl⟩
      cases hop.symm.trans hfound
      exact .abort hmay
    · intro h
      cases h with
      | move _ hmove _ => cases hmove
      | abort hmay => exact ⟨op, hfound, hmay, rfl⟩

theorem progressTransfer_eq_none (hfor : progress.isFor op.phase = false) :
    c.progressTransfer id op.phase progress = none := by
  cases progress <;> exact if_neg (by simpa [TransferProgress.isFor] using hfor)

/-- **What a transfer command does.**  In the phase that it is for, it takes effect or fails; in
    any other it changes nothing, and succeeds if its own phase is behind. -/
theorem applyTransfer_iff :
    c.applyTransfer id progress = .ok c' ↔
      ∃ op, c.operations.get? id = some op ∧
        (if progress.isFor op.phase then c.TransferStep id op progress c'
        else progress.alreadyApplied op.phase = true ∧ c' = c) := by
  unfold applyTransfer
  rw [bind_eq_ok]
  refine exists_congr fun op => ?_
  rw [okOr_eq_ok]
  exact and_congr_right fun hfound =>
    delivered_iff (progressTransfer_iff c' hfound) progressTransfer_eq_none

end Catalog

end Shardlite.Cluster
