/-
  Shardlite.Cluster.DrainRun

  Draining by the planner, step after step.  Every transfer that the planner decides for can be
  carried out, so a run goes on until the planner is at rest.  The node that drains is then
  without primaries; it is without replicas exactly if it had none to begin with, and each
  shard taken off it went to a member that had no copy.
-/
import Shardlite.Cluster.Drain

namespace Shardlite.Cluster

namespace Catalog

/-! ## Carrying a transfer out -/

/-- Something other than transfers and splits keeps the planner's transfer from being started or
    committed: no id or generation is left, or an operation of another kind is at work on a
    shard. -/
structure Unblocked (c : Catalog) : Prop where
  ids : c.nextOperationId + 1 < u64Size
  generations : ∀ s p, c.placements.get? s = some p → p.generation + 1 < u64Size
  operations : ∀ op ∈ c.operations.values, op.kind ≠ .transfer → op.kind ≠ .split →
    op.shard ≠ none → op.phase.terminal = true

/-- The commands of a transfer during which nothing is written. -/
def carryOut : List TransferProgress :=
  [.beginSnapshot, .snapshotInstalled 1 0, .prepare, .beginFencing, .finalLsn 1 0, .commit,
    .beginCleanup, .complete]

section CarryOut

variable {c c' : Catalog} {id : Nat} {op op' : CatalogOperation} {progress : TransferProgress}
  {shard : ShardId} {placement : ReplicaSet} {destination : NodeId}

theorem get?_setOperation_self : (c.setOperation id op).operations.get? id = some op := by
  rw [setOperation, OrdMap.get?_insert, if_pos rfl]

theorem applyTransfers_step (hfound : c.operations.get? id = some op)
    (hfor : progress.isFor op.phase = true) (hstep : c.TransferStep id op progress c')
    (rest : List TransferProgress) :
    c.applyTransfers id (progress :: rest) = c'.applyTransfers id rest := by
  have happly : c.applyTransfer id progress = .ok c' :=
    applyTransfer_iff.2 ⟨op, hfound, by rwa [if_pos hfor]⟩
  rw [applyTransfers, happly]
  rfl

theorem applyTransfers_move (hkind : op.kind = .transfer) (hmove : TransferMove op progress op')
    (hplain : progress.places = false) (rest : List TransferProgress) :
    (c.setOperation id op).applyTransfers id (progress :: rest) =
      (c.setOperation id op').applyTransfers id rest := by
  have hset : (c.setOperation id op).setOperation id op' = c.setOperation id op' := by
    simp only [setOperation, OrdMap.insert_insert]
  rw [← hset]
  exact applyTransfers_step get?_setOperation_self hmove.isFor (.move hkind hmove hplain) rest

/-- The operation at the point of the commit. -/
def fenced (op : CatalogOperation) : CatalogOperation :=
  { op with
    streamEpoch := some 1
    snapshotLsn := some 0
    durableLsn := some 0
    finalLsn := some 0
    phase := .fencing }

theorem applyTransfers_fenced (hkind : op.kind = .transfer) (hphase : op.phase = .planned)
    (rest : List TransferProgress) :
    (c.setOperation id op).applyTransfers id
        (.beginSnapshot :: .snapshotInstalled 1 0 :: .prepare :: .beginFencing :: .finalLsn 1 0 ::
          rest) =
      (c.setOperation id (fenced op)).applyTransfers id rest := by
  refine Eq.trans (applyTransfers_move hkind (.beginSnapshot hphase) rfl _) ?_
  refine Eq.trans (applyTransfers_move (by exact hkind) (.snapshotInstalled rfl one_ne_zero) rfl _) ?_
  refine Eq.trans (applyTransfers_move (by exact hkind) (.prepare rfl) rfl _) ?_
  refine Eq.trans (applyTransfers_move (by exact hkind) (.beginFencing rfl) rfl _) ?_
  exact applyTransfers_move (by exact hkind) (.finalLsn rfl rfl le_rfl) rfl rest

theorem exists_complete (hkind : op.kind = .transfer) (hphase : op.phase = .cleaning)
    {placements : OrdMap ShardId ReplicaSet}
    (hcleaned : (c.setOperation id op).Cleaned op placements) :
    ∃ c' op', (c.setOperation id op).applyTransfers id [.complete] = .ok c' ∧
      c'.operations.get? id = some op' ∧ op'.phase = .complete := by
  have hfor : TransferProgress.complete.isFor op.phase = true := by rw [hphase]; rfl
  refine ⟨_, { op with phase := .complete },
    applyTransfers_step get?_setOperation_self hfor (.complete hkind hphase hcleaned) [], ?_, rfl⟩
  exact get?_setOperation_self

theorem exists_completed (hplace : c.placements.get? shard = some placement)
    (hfits : placement.generation + 1 < u64Size)
    (hplan : SamePlan (c.plannedTransfer shard placement destination) op) :
    ∃ c' op', (c.setOperation id (fenced op)).applyTransfers id
        [.commit, .beginCleanup, .complete] = .ok c' ∧
      c'.operations.get? id = some op' ∧ op'.phase = .complete := by
  have hcommits : CommitsTransfer (fenced op) shard placement.primary destination
      placement.generation :=
    ⟨hplan.kind, rfl, hplan.shard, hplan.source, hplan.destination, hplan.generation,
      by simp [fenced], 0, rfl, le_rfl⟩
  -- the catalog with the placement moved, before its operation is set
  obtain ⟨moved, hget, hcommit⟩ : ∃ moved : Catalog,
      moved.placements.get? shard = some (movedPlacement placement placement.primary destination) ∧
      (c.setOperation id (fenced op)).applyTransfers id [.commit, .beginCleanup, .complete] =
        (moved.setOperation id { fenced op with phase := .committed }).applyTransfers id
          [.beginCleanup, .complete] :=
    ⟨{ c.setOperation id (fenced op) with
        placements := c.placements.insert shard
          (movedPlacement placement placement.primary destination) },
      by rw [OrdMap.get?_insert, if_pos rfl],
      applyTransfers_step get?_setOperation_self rfl (.commit hcommits hplace ⟨rfl, rfl⟩ hfits) _⟩
  have hcleanup : (moved.setOperation id { fenced op with phase := .committed }).applyTransfers id
      [.beginCleanup, .complete] =
      (moved.setOperation id { fenced op with phase := .cleaning }).applyTransfers id [.complete] :=
    applyTransfers_move (by exact hcommits.kind) (.beginCleanup rfl) rfl _
  obtain ⟨placements, hcleaned⟩ : ∃ placements,
      (moved.setOperation id { fenced op with phase := .cleaning }).Cleaned
        { fenced op with phase := .cleaning } placements := by
    cases hretain : op.retainSourceReplica with
    | true => exact ⟨_, .retain hretain⟩
    | false => exact ⟨_, .drop hretain hplan.shard hget⟩
  rw [hcommit, hcleanup]
  exact exists_complete (by exact hcommits.kind) rfl hcleaned

theorem exists_carryOut (destination : NodeId)
    (hplace : c.placements.get? shard = some placement)
    (hfits : placement.generation + 1 < u64Size) :
    ∃ c' op, (c.withOperation (c.plannedTransfer shard placement destination)).applyTransfers
        c.nextOperationId carryOut = .ok c' ∧
      c'.operations.get? c.nextOperationId = some op ∧ op.phase = .complete := by
  have hplanned : c.withOperation (c.plannedTransfer shard placement destination) =
      ({ c with nextOperationId := c.nextOperationId + 1 } : Catalog).setOperation c.nextOperationId
        (c.plannedTransfer shard placement destination) := rfl
  rw [hplanned, carryOut, applyTransfers_fenced rfl rfl]
  exact exists_completed hplace hfits ⟨rfl, rfl, rfl, rfl, rfl, rfl⟩

theorem startTransfer_ok (hplace : c.placements.get? shard = some placement)
    (hdest : ∃ m, c.members.get? destination = some m ∧ m.mayReceivePlacement = true)
    (hne : placement.primary ≠ destination)
    (hfree : ∀ op ∈ c.operations.values, ¬ op.ActiveOn shard) (hid : c.nextOperationId + 1 < u64Size) :
    c.startTransfer shard destination = .ok (c.nextOperationId,
      c.withOperation (c.plannedTransfer shard placement destination)) := by
  obtain ⟨m, hm, hmay⟩ := hdest
  unfold startTransfer
  refine bind_eq_ok.2 ⟨placement, okOr_eq_ok.2 hplace, ?_⟩
  refine bind_eq_ok.2 ⟨m, okOr_eq_ok.2 hm, ?_⟩
  refine bind_eq_ok.2 ⟨(), refuseIf_eq_ok.2 (not_not.2 hmay), ?_⟩
  exact bind_eq_ok.2 ⟨(), refuseIf_eq_ok.2 hne, plan_iff.2 ⟨hfree, hid, rfl, rfl⟩⟩

/-- **A decision for a transfer can be carried out.** -/
theorem exists_plannerStep (hsound : c.Sound) (hblocked : c.Unblocked) {move : PrimaryMove}
    {generation : Nat}
    (hnext : c.nextRebalance = .ok (.transfer move.shard move.source move.destination generation)) :
    ∃ c', c.PlannerStep move c' := by
  have hplanned := (decides_of_nextRebalance hnext).planned hsound
  obtain ⟨placement, hplace, hprimary⟩ := Option.map_eq_some_iff.1 hplanned.source
  have hfree : ∀ op ∈ c.operations.values, ¬ op.ActiveOn move.shard := by
    rintro op hop ⟨hactive, hshard⟩
    obtain ⟨e, he, rfl⟩ := List.mem_map.1 hop
    have hget := OrdMap.get?_eq_some_iff.2 he
    by_cases hkind : e.2.kind = .transfer ∨ e.2.kind = .split
    · rw [budgetHolder_eq_none.1 hplanned.plans.idle e.1 e.2 hget hkind] at hactive
      cases hactive
    · rw [not_or] at hkind
      rw [hblocked.operations e.2 hop hkind.1 hkind.2 (by rw [hshard]; simp)] at hactive
      cases hactive
  have hne : placement.primary ≠ move.destination := by
    rw [hprimary]
    exact hplanned.ne hsound
  have hstart := startTransfer_ok hplace ((mem_eligible hsound.keyed).1 hplanned.destination) hne
    hfree hblocked.ids
  have hplan : c.planNext = .ok (.transfer move.shard move.source move.destination generation,
      c.withOperation (c.plannedTransfer move.shard placement move.destination)) := by
    rw [planNext, hnext]
    exact bind_eq_ok.2 ⟨_, rfl, bind_eq_ok.2 ⟨_, hstart, rfl⟩⟩
  obtain ⟨c', op, happly, hfound, hphase⟩ :=
    exists_carryOut move.destination hplace (hblocked.generations _ _ hplace)
  exact ⟨c', ⟨generation, hnext⟩, _, _, carryOut, op, hplan, happly, hfound, hphase⟩

end CarryOut

/-! ## Runs of the planner -/

/-- Steps of the planner one after the other, each with the catalog before it. -/
inductive PlannerRun : Catalog → List (Catalog × PrimaryMove) → Catalog → Prop where
  | done (c : Catalog) : PlannerRun c [] c
  | step {c c' c'' : Catalog} {move : PrimaryMove} {steps : List (Catalog × PrimaryMove)}
      (hstep : c.PlannerStep move c') (hrest : PlannerRun c' steps c'') :
      PlannerRun c ((c, move) :: steps) c''

/-- What the argument needs of a catalog, and every step keeps. -/
structure Drainable (c : Catalog) (node : NodeId) : Prop where
  sound : c.Sound
  plans : c.Plans
  separate : c.Separate
  node : c.NotActive node

section Run

variable {c c' : Catalog} {move : PrimaryMove} {steps : List (Catalog × PrimaryMove)} {node : NodeId}

theorem PlannerStep.drainable (h : c.PlannerStep move c') (hd : c.Drainable node) :
    c'.Drainable node := by
  obtain ⟨placement, hcarried⟩ := h.carried hd.sound
  have hplanned := (h.rebalanceStep hd.sound).planned hd.sound
  exact ⟨hcarried.moved.sound hd.sound, hcarried.moved.plans hplanned,
    hcarried.separate (hplanned.ne hd.sound) hd.separate, hcarried.moved.notActive_iff.2 hd.node⟩

theorem PlannerRun.drainable (h : c.PlannerRun steps c') (hd : c.Drainable node) :
    c'.Drainable node := by
  induction h with
  | done c => exact hd
  | step hstep _ ih => exact ih (hstep.drainable hd)

theorem PlannerRun.length_le (h : c.PlannerRun steps c') (hd : c.Drainable node) :
    steps.length ≤ c.movesLeft := by
  induction h with
  | done c => exact Nat.zero_le _
  | step hstep _ ih =>
    have hlt := (hstep.rebalanceStep hd.sound).movesLeft_lt hd.sound
    have hle := ih (hstep.drainable hd)
    rw [List.length_cons]
    omega

/-- The node has no replica at the end exactly if it had none at the start and no step left it
    one. -/
theorem PlannerRun.noReplica_iff (h : c.PlannerRun steps c') (hd : c.Drainable node) :
    c'.NoReplica node ↔ c.NoReplica node ∧ ∀ step ∈ steps, step.1.LeavesNoCopy node := by
  induction h with
  | done c => simp
  | step hstep _ ih =>
    rw [ih (hstep.drainable hd), hstep.noReplica_iff hd.sound hd.separate hd.node,
      List.forall_mem_cons, and_assoc]

theorem AtRest.free_iff (h : c.AtRest) (hnode : c.NotActive node) :
    c.Free node ↔ c.NoReplica node := by
  constructor
  · intro hfree s p hget
    exact (hfree s p hget).2
  · intro hnone s p hget
    refine ⟨?_, hnone s p hget⟩
    rintro rfl
    exact h.active s p hget hnode

theorem WellFormed.separate (hwf : c.WellFormed) : c.Separate := by
  intro s p hget hmem
  have hcheck := hwf.placements s p hget
  rw [validatePlacement, check_then] at hcheck
  obtain ⟨primary, -, hcheck⟩ := bind_eq_ok.1 hcheck.2
  rw [check_then, forM_eq_ok] at hcheck
  have hself := hcheck.2 p.primary hmem
  rw [check_then, refuseIf_eq_ok] at hself
  exact hself.1 rfl

/-- **A drain ends, and empties the node exactly where no copy is left behind.**  The steps of the
    planner are bounded in number; until it is at rest there is a next one, if it is not blocked;
    and once it is at rest, the node is free, and its drain completes, exactly if it was the
    replica of no shard to begin with and each shard taken off it went to a member without a
    copy. -/
theorem drain_ends (hvalid : c.validate = .ok ()) (hkeyed : c.Keyed) (hplans : c.Plans)
    (hnode : c.NotActive node) :
    (∃ bound, ∀ steps c', c.PlannerRun steps c' → steps.length ≤ bound) ∧
      (∀ steps c', c.PlannerRun steps c' → c'.Unblocked →
        c'.AtRest ∨ ∃ move c'', c'.PlannerStep move c'') ∧
      ∀ steps c', c.PlannerRun steps c' → c'.AtRest →
        (c'.Free node ↔ c.NoReplica node ∧ ∀ step ∈ steps, step.1.LeavesNoCopy node) ∧
        ∀ id op, c'.operations.get? id = some op → op.kind = .drain → op.phase = .planned →
          op.source = some node → ((∃ c'', c'.completeDrain id = .ok c'') ↔ c'.Free node) := by
  have hwf := validate_eq_ok_iff.1 hvalid
  have hd : c.Drainable node := ⟨hwf.sound hkeyed, hplans, hwf.separate, hnode⟩
  refine ⟨⟨c.movesLeft, fun _ _ h => h.length_le hd⟩, fun _ c' h hblocked => ?_,
    fun _ c' h hrest => ⟨?_, fun id op => completeDrain_ok_iff⟩⟩
  · have hd' := h.drainable hd
    rcases atRest_or_step hd'.sound hd'.plans with hrest | ⟨move, _, ⟨generation, hnext⟩, -⟩
    · exact .inl hrest
    · exact .inr ⟨move, exists_plannerStep hd'.sound hblocked hnext⟩
  · rw [hrest.free_iff (h.drainable hd).node]
    exact h.noReplica_iff hd

/-- Three nodes, of which the first drains; two shards, placed so. -/
def firstDrains (placements : OrdMap ShardId ReplicaSet) : Catalog :=
  { ofMembers .two [(1, ⟨1, 1, "a", .storage, .draining, 1, none⟩),
      (2, ⟨2, 1, "b", .voter, .active, 1, none⟩), (3, ⟨3, 1, "c", .storage, .active, 1, none⟩)] [] with
    placements
    operations := .ofList [(1,
      { id := 1, kind := .drain, phase := .planned, shard := none, source := some 1
        destination := none, expectedGeneration := none, createdVersion := 1 })]
    nextOperationId := 2 }

theorem notActive_firstDrains (placements : OrdMap ShardId ReplicaSet) :
    (firstDrains placements).NotActive 1 :=
  ⟨⟨1, 1, "a", .storage, .draining, 1, none⟩, rfl, by decide⟩

def primaryOnFirst : Catalog := firstDrains (.ofList [(0, ⟨1, 1, []⟩), (1, ⟨1, 3, []⟩)])

theorem drain_ends_primaryOnFirst :
    (∃ bound, ∀ steps c', primaryOnFirst.PlannerRun steps c' → steps.length ≤ bound) ∧
      (∀ steps c', primaryOnFirst.PlannerRun steps c' → c'.Unblocked →
        c'.AtRest ∨ ∃ move c'', c'.PlannerStep move c'') ∧
      ∀ steps c', primaryOnFirst.PlannerRun steps c' → c'.AtRest →
        (c'.Free 1 ↔ primaryOnFirst.NoReplica 1 ∧ ∀ step ∈ steps, step.1.LeavesNoCopy 1) ∧
        ∀ id op, c'.operations.get? id = some op → op.kind = .drain → op.phase = .planned →
          op.source = some 1 → ((∃ c'', c'.completeDrain id = .ok c'') ↔ c'.Free 1) :=
  drain_ends (by decide +kernel) (keyed_iff.2 (by decide)) ⟨by decide, by decide, by decide⟩
    (notActive_firstDrains _)

def replicaOnFirst : Catalog := firstDrains (.ofList [(0, ⟨1, 2, [1]⟩), (1, ⟨1, 3, []⟩)])

/-- The planner is at rest, and the replica stays. -/
theorem replicaOnFirst_stays :
    replicaOnFirst.validate = .ok () ∧ replicaOnFirst.Keyed ∧ replicaOnFirst.Plans ∧
      replicaOnFirst.NotActive 1 ∧
      (∀ e ∈ replicaOnFirst.placements.entries,
        e.2.replicas.length + 1 ≤ replicaOnFirst.eligible.length) ∧
      replicaOnFirst.nextRebalance = .ok .balanced ∧
      replicaOnFirst.completeDrain 1 = .error (.clusterConfig
        "drain operation 1 cannot complete: node 1 still holds shard_0") :=
  ⟨by decide +kernel, keyed_iff.2 (by decide), ⟨by decide, by decide, by decide⟩,
    notActive_firstDrains _, by decide +kernel, by decide +kernel, by decide +kernel⟩

end Run

end Catalog

end Shardlite.Cluster
