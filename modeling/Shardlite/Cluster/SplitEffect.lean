/-
  Shardlite.Cluster.SplitEffect

  What a split command may do to its operation, said once.  A command that takes effect
  moves its operation as `SplitEffect` says, and every move of that relation is made by a
  command that succeeds; only the commit changes anything beside the operation.
-/
import Shardlite.Cluster.CatalogSplit

namespace Shardlite.Cluster

open Shard

/-- What becomes of an operation under a command that takes effect. -/
inductive SplitEffect (op : CatalogOperation) : SplitProgress → CatalogOperation → Prop where
  | beginSnapshot (hphase : op.phase = .planned) :
      SplitEffect op .beginSnapshot { op with phase := .snapshotting }
  | snapshotReady {barrier : Nat} (hphase : op.phase = .snapshotting) :
      SplitEffect op (.snapshotReady barrier)
        { op with snapshotLsn := some barrier, durableLsn := some barrier, phase := .catchingUp }
  | replay {sequence : Nat} (hphase : op.phase = .catchingUp)
      (hle : op.durableLsn.getD 0 ≤ sequence) :
      SplitEffect op (.replay sequence) { op with durableLsn := some sequence }
  | prepare (hphase : op.phase = .catchingUp) :
      SplitEffect op .prepare { op with phase := .prepared }
  | beginFencing (hphase : op.phase = .prepared) :
      SplitEffect op .beginFencing { op with phase := .fencing }
  | fenced {sequence : Nat} (hphase : op.phase = .fencing)
      (hle : op.durableLsn.getD 0 ≤ sequence) :
      SplitEffect op (.fenced sequence)
        { op with finalLsn := some sequence, durableLsn := some sequence, phase := .installing }
  | installed {node : NodeId} (hphase : op.phase = .installing)
      (hnode : node ∈ op.splitRequiredNodes) :
      SplitEffect op (.replicaInstalled node)
        { op with splitInstalledNodes := insert node op.splitInstalledNodes }
  | commit (hphase : op.phase = .installing)
      (hall : op.splitRequiredNodes ⊆ op.splitInstalledNodes) :
      SplitEffect op .commit { op with phase := .committed }
  | beginCleanup (hphase : op.phase = .committed) :
      SplitEffect op .beginCleanup { op with phase := .cleaning }
  | cleaned {node : NodeId} (hphase : op.phase = .cleaning)
      (hnode : node ∈ op.splitRequiredNodes) :
      SplitEffect op (.replicaCleaned node)
        { op with splitCleanedNodes := insert node op.splitCleanedNodes }
  | complete (hphase : op.phase = .cleaning)
      (hall : op.splitRequiredNodes ⊆ op.splitCleanedNodes) :
      SplitEffect op .complete { op with phase := .complete }

def SplitProgress.isFor (phase : OperationPhase) : SplitProgress → Bool
  | .beginSnapshot => phase = .planned
  | .snapshotReady _ => phase = .snapshotting
  | .replay _ | .prepare => phase = .catchingUp
  | .beginFencing => phase = .prepared
  | .fenced _ => phase = .fencing
  | .replicaInstalled _ | .commit => phase = .installing
  | .beginCleanup => phase = .committed
  | .replicaCleaned _ | .complete => phase = .cleaning
  | .abort _ => phase.mayAbort

theorem SplitEffect.isFor {op op' : CatalogOperation} {progress : SplitProgress}
    (h : SplitEffect op progress op') : progress.isFor op.phase = true := by
  cases h <;> simpa [SplitProgress.isFor]

namespace Catalog

variable {c c' : Catalog} {id : Nat} {op op' : CatalogOperation} {progress : SplitProgress}

/-! ## Commands that rewrite their operation -/

/-- The operation is found and moves as the relation says. -/
def SplitMoved (c : Catalog) (id : Nat) (progress : SplitProgress) (c' : Catalog) : Prop :=
  ∃ op op', c.operations.get? id = some op ∧ op.kind = .split ∧ SplitEffect op progress op' ∧
    c' = c.setOperation id op'

variable {sequence : Nat} {node : NodeId}

/-- A command that looks its operation up, checks something and rewrites it. -/
theorem rewrites_iff {R : CatalogOperation → CatalogOperation → Prop} {kind : OperationKind}
    {phase : OperationPhase} (check : CatalogOperation → Except Error Unit)
    {next : CatalogOperation → CatalogOperation}
    (hnext : ∀ op, op.phase = phase → check op = .ok () → R op (next op))
    (hinv : ∀ op op', R op op' → op.phase = phase ∧ check op = .ok () ∧ op' = next op) :
    (do let op ← c.operationIn id kind phase
        check op
        return c.setOperation id (next op)) = .ok c' ↔
      ∃ op op', c.operations.get? id = some op ∧ op.kind = kind ∧ R op op' ∧
        c' = c.setOperation id op' := by
  simp only [bind_eq_ok, operationIn_eq_ok, pure_eq_ok]
  constructor
  · rintro ⟨op, ⟨hfound, hkind, hphase⟩, _, hcheck, rfl⟩
    exact ⟨op, next op, hfound, hkind, hnext op hphase hcheck, rfl⟩
  · rintro ⟨op, op', hfound, hkind, heffect, rfl⟩
    obtain ⟨hphase, hcheck, rfl⟩ := hinv op op' heffect
    exact ⟨op, ⟨hfound, hkind, hphase⟩, (), hcheck, rfl⟩

theorem beginSplitSnapshot_iff :
    c.beginSplitSnapshot id = .ok c' ↔ c.SplitMoved id .beginSnapshot c' :=
  rewrites_iff (fun _ => .ok ()) (fun _ hphase _ => .beginSnapshot hphase)
    fun | _, _, .beginSnapshot hphase => ⟨hphase, rfl, rfl⟩

theorem prepareSplit_iff : c.prepareSplit id = .ok c' ↔ c.SplitMoved id .prepare c' :=
  rewrites_iff (fun _ => .ok ()) (fun _ hphase _ => .prepare hphase)
    fun | _, _, .prepare hphase => ⟨hphase, rfl, rfl⟩

theorem beginSplitFencing_iff :
    c.beginSplitFencing id = .ok c' ↔ c.SplitMoved id .beginFencing c' :=
  rewrites_iff (fun _ => .ok ()) (fun _ hphase _ => .beginFencing hphase)
    fun | _, _, .beginFencing hphase => ⟨hphase, rfl, rfl⟩

theorem beginSplitCleanup_iff :
    c.beginSplitCleanup id = .ok c' ↔ c.SplitMoved id .beginCleanup c' :=
  rewrites_iff (fun _ => .ok ()) (fun _ hphase _ => .beginCleanup hphase)
    fun | _, _, .beginCleanup hphase => ⟨hphase, rfl, rfl⟩

theorem splitSnapshotReady_iff {barrier : Nat} :
    c.splitSnapshotReady id barrier = .ok c' ↔ c.SplitMoved id (.snapshotReady barrier) c' :=
  rewrites_iff (fun _ => .ok ()) (fun _ hphase _ => .snapshotReady hphase)
    fun | _, _, .snapshotReady hphase => ⟨hphase, rfl, rfl⟩

theorem recordSplitReplay_iff :
    c.recordSplitReplay id sequence = .ok c' ↔ c.SplitMoved id (.replay sequence) c' :=
  rewrites_iff _ (fun _ hphase hcheck => .replay hphase (not_lt.1 (refuseIf_eq_ok.1 hcheck)))
    fun | _, _, .replay hphase hle => ⟨hphase, refuseIf_eq_ok.2 (not_lt.2 hle), rfl⟩

theorem splitFenced_iff :
    c.splitFenced id sequence = .ok c' ↔ c.SplitMoved id (.fenced sequence) c' :=
  rewrites_iff _ (fun _ hphase hcheck => .fenced hphase (not_lt.1 (refuseIf_eq_ok.1 hcheck)))
    fun | _, _, .fenced hphase hle => ⟨hphase, refuseIf_eq_ok.2 (not_lt.2 hle), rfl⟩

theorem refuseStranger_eq_ok :
    refuseStranger op id node = .ok () ↔ node ∈ op.splitRequiredNodes := by
  rw [refuseStranger, refuseIf_eq_ok, not_not]

theorem recordSplitInstalled_iff :
    c.recordSplitInstalled id node = .ok c' ↔ c.SplitMoved id (.replicaInstalled node) c' :=
  rewrites_iff (refuseStranger · id node)
    (fun _ hphase hcheck => .installed hphase (refuseStranger_eq_ok.1 hcheck))
    fun | _, _, .installed hphase hnode => ⟨hphase, refuseStranger_eq_ok.2 hnode, rfl⟩

theorem recordSplitCleaned_iff :
    c.recordSplitCleaned id node = .ok c' ↔ c.SplitMoved id (.replicaCleaned node) c' :=
  rewrites_iff (refuseStranger · id node)
    (fun _ hphase hcheck => .cleaned hphase (refuseStranger_eq_ok.1 hcheck))
    fun | _, _, .cleaned hphase hnode => ⟨hphase, refuseStranger_eq_ok.2 hnode, rfl⟩

theorem completeSplit_iff : c.completeSplit id = .ok c' ↔ c.SplitMoved id .complete c' := by
  simp only [completeSplit, bind_eq_ok, operationIn_eq_ok, refuseIf_eq_ok, not_not,
    transition_eq_ok]
  constructor
  · rintro ⟨op, ⟨hfound, -⟩, -, hcheck, op', hfound', hkind, hphase, rfl⟩
    -- the operation is looked up twice
    cases hfound.symm.trans hfound'
    exact ⟨op, _, hfound, hkind, .complete hphase hcheck, rfl⟩
  · rintro ⟨op, op', hfound, hkind, heffect, rfl⟩
    cases heffect with
    | complete hphase hall =>
      exact ⟨op, ⟨hfound, hkind, hphase⟩, (), hall, op, hfound, hkind, hphase, rfl⟩

/-! ## The commit -/

/-- What the commit of a split needs of its operation. -/
structure CommitsSplit (op : CatalogOperation)
    (source : ShardId) (owner : NodeId) (generation : Nat) (before : LinearV1) (after : Routing) :
    Prop where
  kind : op.kind = .split
  phase : op.phase = .installing
  installed : op.splitRequiredNodes ⊆ op.splitInstalledNodes
  final : ∃ final durable, op.finalLsn = some final ∧ op.durableLsn = some durable ∧ final ≤ durable
  shard : op.shard = some source
  owner : op.source = some owner
  generation : op.expectedGeneration = some generation
  before : op.routingBefore = some (.linearV1 before)
  after : op.routingAfter = some after

def withSplit (c : Catalog) (id : Nat) (op : CatalogOperation) (owner : NodeId) (before : LinearV1)
    (after : Routing) : Catalog :=
  { c.setOperation id { op with phase := .committed } with
    placements := c.placements.insert before.splitDestination
      { generation := 1
        primary := owner
        replicas := op.splitRequiredNodes.ascending.filter (· ≠ owner) }
    routing := after
    routingEpoch := c.routingEpoch + 1 }

theorem final_replayed_iff :
    (¬ op.finalLsn = none ∧ ¬ ∃ final ∈ op.finalLsn, ∀ durable ∈ op.durableLsn, durable < final) ↔
      ∃ final durable, op.finalLsn = some final ∧ op.durableLsn = some durable ∧ final ≤ durable := by
  cases hfinal : op.finalLsn with
  | none => simp
  | some final =>
    cases hdurable : op.durableLsn with
    | none | some durable => simp

theorem commitSplit_iff :
    c.commitSplit id = .ok c' ↔
      ∃ op source owner generation before after placement, c.operations.get? id = some op ∧
        CommitsSplit op source owner generation before after ∧ c.routing = .linearV1 before ∧
        c.placements.get? source = some placement ∧
        (placement.primary = owner ∧ placement.generation = generation) ∧
        c.routingEpoch + 1 < u64Size ∧ c' = c.withSplit id op owner before after := by
  simp only [commitSplit, bind_eq_ok, operationIn_eq_ok, expect_eq_ok, okOr_eq_ok, refuseIf_eq_ok,
    final_replayed_iff, not_or, not_not]
  constructor
  · rintro ⟨op, ⟨hfound, hkind, hphase⟩, source, hsource, owner, howner, generation, hgeneration,
      before, hbefore, after, hafter, -, hfinal, -, hall, -, hrouting, placement, hplace, -, hsame, h⟩
    cases before with
    | moduloV1 modulo => exact absurd h (by simp)
    | linearV1 linear =>
      simp only [bind_eq_ok, okOr_eq_ok, checkedSucc_eq_some_iff, pure_eq_ok] at h
      obtain ⟨epoch, ⟨hfits, rfl⟩, rfl⟩ := h
      exact ⟨op, source, owner, generation, linear, after, placement, hfound,
        ⟨hkind, hphase, hall, hfinal, hsource, howner, hgeneration, hbefore, hafter⟩, hrouting, hplace,
        hsame, hfits, rfl⟩
  · rintro ⟨op, source, owner, generation, before, after, placement, hfound, hop, hrouting, hplace,
      hsame, hfits, rfl⟩
    exact ⟨op, ⟨hfound, hop.kind, hop.phase⟩, source, hop.shard, owner, hop.owner, generation,
      hop.generation, .linearV1 before, hop.before, after, hop.after, (), hop.final, (), hop.installed,
      (), hrouting, placement, hplace, (), hsame, bind_eq_ok.2 ⟨c.routingEpoch + 1,
        okOr_eq_ok.2 (checkedSucc_eq_some_iff.2 ⟨hfits, rfl⟩), rfl⟩⟩

theorem abortOperation_iff {reason : String} :
    c.abortOperation id reason = .ok c' ↔
      ∃ op, c.operations.get? id = some op ∧ op.phase.mayAbort = true ∧
        c' = c.setOperation id { op with phase := .aborted, lastError := some reason } := by
  simp only [abortOperation, bind_eq_ok, okOr_eq_ok, refuseIf_eq_ok, not_not, pure_eq_ok]
  constructor
  · rintro ⟨op, hfound, -, hmay, rfl⟩
    exact ⟨op, hfound, hmay, rfl⟩
  · rintro ⟨op, hfound, hmay, rfl⟩
    exact ⟨op, hfound, (), hmay, rfl⟩

/-! ## All commands -/

/-- What a command that takes effect does to the catalog. -/
inductive SplitStep (c : Catalog) (id : Nat) (op : CatalogOperation) :
    SplitProgress → Catalog → Prop where
  | move {progress : SplitProgress} {op' : CatalogOperation} (hkind : op.kind = .split)
      (heffect : SplitEffect op progress op') (hne : progress ≠ .commit) :
      SplitStep c id op progress (c.setOperation id op')
  | commit {source : ShardId} {owner : NodeId} {generation : Nat} {before : LinearV1}
      {after : Routing} {placement : ReplicaSet}
      (hop : CommitsSplit op source owner generation before after)
      (hrouting : c.routing = .linearV1 before) (hplace : c.placements.get? source = some placement)
      (hsame : placement.primary = owner ∧ placement.generation = generation)
      (hfits : c.routingEpoch + 1 < u64Size) :
      SplitStep c id op .commit (c.withSplit id op owner before after)
  | abort {reason : String} (hmay : op.phase.mayAbort = true) :
      SplitStep c id op (.abort reason)
        (c.setOperation id { op with phase := .aborted, lastError := some reason })

theorem splitMoved_iff_step (hfound : c.operations.get? id = some op) (hne : progress ≠ .commit)
    (habort : ∀ reason, progress ≠ .abort reason) :
    c.SplitMoved id progress c' ↔ c.SplitStep id op progress c' := by
  constructor
  · rintro ⟨op₁, op', hop, hkind, heffect, rfl⟩
    cases hop.symm.trans hfound
    exact .move hkind heffect hne
  · intro h
    cases h with
    | move hkind heffect _ => exact ⟨op, _, hfound, hkind, heffect, rfl⟩
    | commit => exact absurd rfl hne
    | abort => exact absurd rfl (habort _)

theorem guarded_splitMoved_iff (hfound : c.operations.get? id = some op) {guard : Prop}
    [Decidable guard] {result : Except Error Catalog}
    (hiff : result = .ok c' ↔ c.SplitMoved id progress c') (hguard : decide guard = true)
    (hne : progress ≠ .commit := by simp) (habort : ∀ reason, progress ≠ .abort reason := by simp) :
    ∃ r, (if guard then some result else none) = some r ∧
      (r = .ok c' ↔ c.SplitStep id op progress c') :=
  ⟨_, if_pos (of_decide_eq_true hguard), hiff.trans (splitMoved_iff_step hfound hne habort)⟩

theorem progressSplit_iff (c' : Catalog) (hfound : c.operations.get? id = some op)
    (hfor : progress.isFor op.phase = true) :
    ∃ result, c.progressSplit id op.phase progress = some result ∧
      (result = .ok c' ↔ c.SplitStep id op progress c') := by
  cases progress with
  | beginSnapshot =>
    exact guarded_splitMoved_iff hfound beginSplitSnapshot_iff hfor
  | snapshotReady barrier =>
    exact guarded_splitMoved_iff hfound splitSnapshotReady_iff hfor
  | replay sequence =>
    exact guarded_splitMoved_iff hfound recordSplitReplay_iff hfor
  | prepare =>
    exact guarded_splitMoved_iff hfound prepareSplit_iff hfor
  | beginFencing =>
    exact guarded_splitMoved_iff hfound beginSplitFencing_iff hfor
  | fenced sequence =>
    exact guarded_splitMoved_iff hfound splitFenced_iff hfor
  | replicaInstalled node =>
    exact guarded_splitMoved_iff hfound recordSplitInstalled_iff hfor
  | beginCleanup =>
    exact guarded_splitMoved_iff hfound beginSplitCleanup_iff hfor
  | replicaCleaned node =>
    exact guarded_splitMoved_iff hfound recordSplitCleaned_iff hfor
  | complete =>
    exact guarded_splitMoved_iff hfound completeSplit_iff hfor
  | commit =>
    refine ⟨_, if_pos (by simpa [SplitProgress.isFor] using hfor), commitSplit_iff.trans ?_⟩
    constructor
    · rintro ⟨op₁, source, owner, generation, before, after, placement, hop, hcommit, hrouting, hplace,
        hsame, hfits, rfl⟩
      cases hop.symm.trans hfound
      exact .commit hcommit hrouting hplace hsame hfits
    · intro h
      cases h with
      | move _ _ hne => exact absurd rfl hne
      | commit hcommit hrouting hplace hsame hfits =>
        exact ⟨op, _, _, _, _, _, _, hfound, hcommit, hrouting, hplace, hsame, hfits, rfl⟩
  | abort reason =>
    refine ⟨_, if_pos hfor, abortOperation_iff.trans ?_⟩
    constructor
    · rintro ⟨op₁, hop, hmay, rfl⟩
      cases hop.symm.trans hfound
      exact .abort hmay
    · intro h
      cases h with
      | move _ heffect _ => cases heffect
      | abort hmay => exact ⟨op, hfound, hmay, rfl⟩

theorem progressSplit_eq_none (hfor : progress.isFor op.phase = false) :
    c.progressSplit id op.phase progress = none := by
  cases progress <;> exact if_neg (by simpa [SplitProgress.isFor] using hfor)

/-- A command is run in the phase that it is for; in any other one only its redelivery
    succeeds. -/
theorem delivered_iff {run : Option (Except Error Catalog)} {isFor already : Bool} {Step : Prop}
    {e : Error} (hrun : isFor = true → ∃ result, run = some result ∧ (result = .ok c' ↔ Step))
    (hnone : isFor = false → run = none) :
    (match run with
      | some result => result
      | none => if already then .ok c else .error e) = .ok c' ↔
      if isFor then Step else already = true ∧ c' = c := by
  cases isFor with
  | true =>
    obtain ⟨result, rfl, hiff⟩ := hrun rfl
    rw [if_pos rfl]
    exact hiff
  | false =>
    rw [hnone rfl]
    cases already <;> simp [eq_comm]

/-- **What a split command does.**  In the phase that it is for, it takes effect or fails; in
    any other it changes nothing, and succeeds if its own phase is behind. -/
theorem applySplit_iff :
    c.applySplit id progress = .ok c' ↔
      ∃ op, c.operations.get? id = some op ∧
        (if progress.isFor op.phase then c.SplitStep id op progress c'
        else progress.alreadyApplied op.phase = true ∧ c' = c) := by
  unfold applySplit
  rw [bind_eq_ok]
  refine exists_congr fun op => ?_
  rw [okOr_eq_ok]
  exact and_congr_right fun hfound =>
    delivered_iff (progressSplit_iff c' hfound) progressSplit_eq_none

end Catalog

end Shardlite.Cluster
