/-
  Shardlite.Cluster.TransferEffect

  What a transfer command may do to its operation, said once.  Every fact about
  the commands is read off this relation.
-/
import Shardlite.Cluster.Transfer
import Shardlite.Cluster.Deliveries

namespace Shardlite.Cluster

open Shardlite.Replication

/-- What the destination claims to hold, if the command carries such a claim. -/
def TransferProgress.held : TransferProgress → Option Position
  | .snapshotInstalled epoch lsn | .catchUp epoch lsn | .fencedBootstrap epoch lsn
  | .fencedCatchUp epoch lsn => some ⟨epoch, lsn⟩
  | .beginSnapshot | .prepare | .beginFencing | .finalLsn _ _ | .restartFencedSource _ _ | .commit
  | .beginCleanup | .complete | .abort _ => none

/-- Where the source claims to have stopped, if the command carries such a claim. -/
def TransferProgress.final : TransferProgress → Option Position
  | .finalLsn epoch lsn | .restartFencedSource epoch lsn => some ⟨epoch, lsn⟩
  | .beginSnapshot | .snapshotInstalled _ _ | .catchUp _ _ | .prepare | .beginFencing
  | .fencedBootstrap _ _ | .fencedCatchUp _ _ | .commit | .beginCleanup | .complete
  | .abort _ => none

/-- What becomes of an operation under a command that takes effect. -/
inductive TransferEffect (op : CatalogOperation) :
    TransferProgress → CatalogOperation → Prop where
  /-- On to the next phase, before the fence. -/
  | advance {progress : TransferProgress} {next : OperationPhase}
      (hphase : op.phase.undecided = true) (hbefore : op.phase ≠ .fencing)
      (hnext : next.undecided = true) : TransferEffect op progress { op with phase := next }
  | snapshot {epoch lsn : Nat} (hphase : op.phase = .snapshotting) :
      TransferEffect op (.snapshotInstalled epoch lsn)
        { op with
          streamEpoch := some epoch, snapshotLsn := some lsn, durableLsn := some lsn
          phase := .catchingUp }
  | durable {progress : TransferProgress} {epoch lsn : Nat} (hphase : op.phase.undecided = true)
      (hheld : progress.held = some ⟨epoch, lsn⟩) (hepoch : op.streamEpoch = some epoch) :
      TransferEffect op progress { op with durableLsn := some lsn }
  | bootstrapped {epoch lsn : Nat} (hphase : op.phase = .fencing)
      (hepoch : op.streamEpoch = some epoch) :
      TransferEffect op (.fencedBootstrap epoch lsn)
        { op with snapshotLsn := some lsn, durableLsn := some lsn }
  | final {epoch lsn : Nat} (hphase : op.phase = .fencing) (hepoch : op.streamEpoch = some epoch) :
      TransferEffect op (.finalLsn epoch lsn) { op with finalLsn := some lsn }
  | restart {epoch lsn : Nat} (hphase : op.phase = .fencing) :
      TransferEffect op (.restartFencedSource epoch lsn)
        { op with
          streamEpoch := some epoch, snapshotLsn := none, durableLsn := none
          finalLsn := some lsn }
  /-- Ownership is decided, or was before. -/
  | decide {progress : TransferProgress} {next : OperationPhase} {lastError : Option String}
      (hnext : next.undecided = false) :
      TransferEffect op progress { op with phase := next, lastError }

/-- No command changes what an operation is about. -/
structure CatalogOperation.SameMove (op op' : CatalogOperation) : Prop where
  id : op'.id = op.id
  kind : op'.kind = op.kind
  shard : op'.shard = op.shard
  source : op'.source = op.source
  destination : op'.destination = op.destination

variable {op op' : CatalogOperation}

theorem CatalogOperation.SameMove.refl (op : CatalogOperation) : op.SameMove op :=
  ⟨rfl, rfl, rfl, rfl, rfl⟩

theorem CatalogOperation.SameMove.trans {op'' : CatalogOperation} (h : op.SameMove op')
    (h' : op'.SameMove op'') : op.SameMove op'' :=
  ⟨h'.id.trans h.id, h'.kind.trans h.kind, h'.shard.trans h.shard, h'.source.trans h.source,
    h'.destination.trans h.destination⟩

theorem CatalogOperation.SameMove.moves (h : op.SameMove op')
    {shard : ShardId} : op'.Moves shard ↔ op.Moves shard := by
  unfold CatalogOperation.Moves
  rw [h.kind, h.shard]

theorem TransferEffect.sameMove {progress : TransferProgress}
    (h : TransferEffect op progress op') : op.SameMove op' := by
  cases h <;> exact ⟨rfl, rfl, rfl, rfl, rfl⟩

structure CatalogOperation.Ready (op : CatalogOperation) (primary : NodeId) : Prop where
  phase : op.phase = .fencing
  source : op.source = some primary
  snapshot : op.snapshotLsn ≠ none
  final : ∃ lsn, op.finalLsn = some lsn ∧ lsn ≤ op.durableLsn.getD 0

namespace Catalog

/-- How the catalog looks after a command that takes effect on `op`. -/
structure Applied (c : Catalog) (id : Nat) (op : CatalogOperation) (progress : TransferProgress)
    (c' : Catalog) : Prop where
  found : c.operations.get? id = some op
  effect : ∃ op', TransferEffect op progress op' ∧ c'.operations = c.operations.insert id op'
  nextOperationId : c'.nextOperationId = c.nextOperationId
  /-- A shard keeps its primary, unless this is the commit of its transfer. -/
  placement : ∀ shard, (c'.placements.get? shard).map (·.primary) =
      (c.placements.get? shard).map (·.primary) ∨
    op.kind = .transfer ∧ op.shard = some shard ∧ progress = .commit ∧
      ∃ source destination, (c.placements.get? shard).map (·.primary) = some source ∧
        op.Ready source ∧ op.destination = some destination ∧
        (c'.placements.get? shard).map (·.primary) = some destination ∧
        c'.operations = c.operations.insert id { op with phase := .committed }

section Commands

variable {c c' : Catalog} {id : Nat} {op op' : CatalogOperation} {progress : TransferProgress}

theorem Applied.of_setOperation (hfound : c.operations.get? id = some op)
    (heffect : TransferEffect op progress op') :
    c.Applied id op progress (c.setOperation id op') :=
  ⟨hfound, ⟨op', heffect, rfl⟩, rfl, fun _ => .inl rfl⟩

theorem effect_of_move (h : TransferMove op progress op') :
    op' = op ∨ TransferEffect op progress op' := by
  cases h with
  | beginSnapshot hphase | prepare hphase | beginFencing hphase =>
    exact .inr (.advance (by rw [hphase]; rfl) (by simp [hphase]) rfl)
  | snapshotInstalled hphase _ => exact .inr (.snapshot hphase)
  | catchUp hphase hepoch _ | fencedCatchUp hphase hepoch _ =>
    exact .inr (.durable (by rw [hphase]; rfl) rfl hepoch)
  | finalLsn hphase hepoch _ => exact .inr (.final hphase hepoch)
  | restart hphase _ _ => exact .inr (.restart hphase)
  | restartAgain => exact .inl rfl
  | fencedBootstrap hphase hepoch _ => exact .inr (.bootstrapped hphase hepoch)
  | commit | beginCleanup | complete => exact .inr (@TransferEffect.decide op _ _ op.lastError rfl)

theorem TransferStep.applied (h : c.TransferStep id op progress c')
    (hfound : c.operations.get? id = some op) : c' = c ∨ c.Applied id op progress c' := by
  cases h with
  | move _ hmove _ =>
    rcases effect_of_move hmove with rfl | heffect
    · exact .inl (setOperation_self hfound)
    · exact .inr (.of_setOperation hfound heffect)
  | @commit shard source destination _ placement hop hplace hsame _ =>
    refine .inr ⟨hfound, ⟨_, @TransferEffect.decide op _ _ op.lastError rfl, rfl⟩, rfl, fun s => ?_⟩
    have hget : ({ c.setOperation id { op with phase := .committed } with
        placements := c.placements.insert shard (movedPlacement placement source destination) } :
        Catalog).placements.get? s = _ := OrdMap.get?_insert ..
    by_cases hs : s = shard
    · subst hs
      refine .inr ⟨hop.kind, hop.shard, rfl, source, destination, ?_, ?_, hop.destination, ?_, rfl⟩
      · rw [hplace, Option.map_some, hsame.2]
      · exact ⟨hop.phase, hop.source, hop.snapshot, hop.final⟩
      · rw [hget, if_pos rfl]
        rfl
    · exact .inl (by rw [hget, if_neg hs])
  | complete _ _ hcleaned =>
    refine .inr ⟨hfound, ⟨_, @TransferEffect.decide op _ _ op.lastError rfl, rfl⟩, rfl, fun s => .inl ?_⟩
    cases hcleaned with
    | retain => rfl
    | drop _ _ hplace =>
      -- only the replicas change
      simp only [OrdMap.get?_insert]
      split_ifs with hs
      · rw [hs, hplace, Option.map_some, Option.map_some]
      · rfl
  | abort => exact .inr (.of_setOperation hfound (.decide rfl))

/-- **One spec for every command.**  A transfer command changes nothing, or has
    its effect on the operation it names. -/
theorem applyTransfer_applied (h : c.applyTransfer id progress = .ok c') :
    c' = c ∨ ∃ op, c.Applied id op progress c' := by
  obtain ⟨op, hfound, hstep⟩ := applyTransfer_iff.1 h
  split_ifs at hstep
  · exact (hstep.applied hfound).imp_right fun happ => ⟨op, happ⟩
  · exact .inl hstep.2

end Commands

end Catalog

end Shardlite.Cluster
