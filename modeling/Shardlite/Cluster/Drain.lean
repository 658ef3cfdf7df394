/-
  Shardlite.Cluster.Drain

  Emptying a node that is to leave.  The drain itself is only an intent; the planner is run, and
  every transfer that it decides for is carried out to its end.  A transfer takes the primary
  off its source, and the copy with it unless the destination had one before: then the source
  stays as a replica.  Replicas are never moved.
-/
import Shardlite.Cluster.RebalanceRun
import Shardlite.Cluster.Deliveries

namespace Shardlite.Cluster

namespace Catalog

/-! ## Drains -/

variable (c : Catalog)

def startDrain (node : NodeId) : Except Error (Nat × Catalog) := do
  refuseIf (c.operations.values.any fun op =>
      op.kind = .drain ∧ op.source = some node ∧ ¬ op.phase.terminal)
    (.clusterConfig s!"node {node} already has an active drain operation")
  let c ← c.setMemberState node .draining
  c.startOperation .drain none (some node) none none

/-- The first shard that the node has a copy of. -/
def shardOn (node : NodeId) : Option (ShardId × ReplicaSet) :=
  c.placements.entries.find? fun e => e.2.primary = node ∨ node ∈ e.2.replicas

/-- A drain completes only when the node holds no copy. -/
def completeDrain (id : Nat) : Except Error Catalog := do
  let op ← c.operationIn id .drain .planned
  let node ← expect op.source "validated drain source"
  match c.shardOn node with
  | some (shard, _) =>
    .error (.clusterConfig
      s!"drain operation {id} cannot complete: node {node} still holds {shardName shard}")
  | none => return c.setOperation id { op with phase := .complete }

/-- The node is neither primary nor replica of any shard. -/
def Free (node : NodeId) : Prop :=
  ∀ s p, c.placements.get? s = some p → p.primary ≠ node ∧ node ∉ p.replicas

/-- The node is in no replica list. -/
def NoReplica (node : NodeId) : Prop :=
  ∀ s p, c.placements.get? s = some p → node ∉ p.replicas

variable {op : CatalogOperation}

section Drain

variable {c c' : Catalog} {node : NodeId}

theorem shardOn_eq_none : c.shardOn node = none ↔ c.Free node := by
  rw [shardOn, List.find?_eq_none]
  simp only [decide_eq_true_eq, not_or]
  exact c.placements.forall_entries fun _ p => ¬ p.primary = node ∧ ¬ node ∈ p.replicas

theorem completeDrain_ok_iff {id : Nat} (hfound : c.operations.get? id = some op)
    (hkind : op.kind = .drain)
    (hphase : op.phase = .planned) (hsource : op.source = some node) :
    (∃ c', c.completeDrain id = .ok c') ↔ c.Free node := by
  have hin := operationIn_eq_ok.2 ⟨hfound, hkind, hphase⟩
  rw [← shardOn_eq_none]
  constructor
  · rintro ⟨c', h⟩
    obtain ⟨op', hop', h⟩ := bind_eq_ok.1 h
    obtain rfl := Except.ok.inj (hop'.symm.trans hin)
    obtain ⟨node', hnode, h⟩ := bind_eq_ok.1 h
    rw [expect_eq_ok, hsource] at hnode
    cases hnode
    cases hon : c.shardOn node with
    | none => rfl
    | some e => rw [hon] at h; cases h
  · intro hon
    refine ⟨c.setOperation id { op with phase := .complete },
      bind_eq_ok.2 ⟨op, hin, bind_eq_ok.2 ⟨node, expect_eq_ok.2 hsource, ?_⟩⟩⟩
    rw [hon]
    rfl

end Drain

/-! ## A transfer from its plan to its end -/

/-- The commands are applied one after the other. -/
def applyTransfers (c : Catalog) (id : Nat) : List TransferProgress → Except Error Catalog
  | [] => .ok c
  | progress :: rest => do
    let next ← c.applyTransfer id progress
    next.applyTransfers id rest

/-- The planner decides for a transfer, which is planned and then carried out. -/
structure PlannerStep (move : PrimaryMove) (c' : Catalog) : Prop where
  decision : ∃ generation, c.nextRebalance =
    .ok (.transfer move.shard move.source move.destination generation)
  completed : ∃ decision planned commands op, c.planNext = .ok (decision, planned) ∧
    planned.applyTransfers c.nextOperationId commands = .ok c' ∧
    c'.operations.get? c.nextOperationId = some op ∧ op.phase = .complete

/-- The placement once the transfer is complete: the source keeps its copy if the destination
    had one before. -/
def transferred (placement : ReplicaSet) (destination : NodeId) : ReplicaSet :=
  let moved := movedPlacement placement placement.primary destination
  if destination ∈ placement.replicas then moved
  else { moved with replicas := moved.replicas.filter (· ≠ placement.primary) }

/-- The fields of an operation that the commands of a transfer leave alone. -/
structure SamePlan (op op' : CatalogOperation) : Prop where
  kind : op'.kind = op.kind
  shard : op'.shard = op.shard
  source : op'.source = op.source
  destination : op'.destination = op.destination
  generation : op'.expectedGeneration = op.expectedGeneration
  retain : op'.retainSourceReplica = op.retainSourceReplica

theorem SamePlan.trans {op' op'' : CatalogOperation} (h : SamePlan op op')
    (h' : SamePlan op' op'') : SamePlan op op'' :=
  ⟨h'.kind.trans h.kind, h'.shard.trans h.shard, h'.source.trans h.source,
    h'.destination.trans h.destination, h'.generation.trans h.generation, h'.retain.trans h.retain⟩

theorem samePlan_of_move {op' : CatalogOperation} {progress : TransferProgress}
    (h : TransferMove op progress op') : SamePlan op op' := by
  cases h <;> exact ⟨rfl, rfl, rfl, rfl, rfl, rfl⟩

theorem samePlan_phase (op : CatalogOperation) (phase : OperationPhase)
    (lastError : Option String) : SamePlan op { op with phase, lastError } :=
  ⟨rfl, rfl, rfl, rfl, rfl, rfl⟩

/-- Where the placements are while the transfer is in this phase. -/
def placementsIn (shard : ShardId) (placement : ReplicaSet) (destination : NodeId) :
    OperationPhase → OrdMap ShardId ReplicaSet
  | .committed | .cleaning =>
    c.placements.insert shard (movedPlacement placement placement.primary destination)
  | .complete => c.placements.insert shard (transferred placement destination)
  | _ => c.placements

/-- The catalog while the transfer that was planned in `c` is under way. -/
structure During (shard : ShardId) (placement : ReplicaSet) (destination : NodeId)
    (c' : Catalog) (op : CatalogOperation) : Prop where
  found : c'.operations.get? c.nextOperationId = some op
  plan : SamePlan (c.plannedTransfer shard placement destination) op
  others : ∀ k, k ≠ c.nextOperationId → c'.operations.get? k = c.operations.get? k
  members : c'.members = c.members
  routing : c'.routing = c.routing
  placements : c'.placements = c.placementsIn shard placement destination op.phase

section Transfer

variable {c c' c'' : Catalog} {shard : ShardId} {placement : ReplicaSet} {destination : NodeId}
  {op op' : CatalogOperation} {progress : TransferProgress}
variable {placements : OrdMap ShardId ReplicaSet}

theorem during_planned (c : Catalog) (shard : ShardId) (placement : ReplicaSet)
    (destination : NodeId) :
    c.During shard placement destination
      (c.withOperation (c.plannedTransfer shard placement destination))
      (c.plannedTransfer shard placement destination) where
  found := by rw [withOperation, setOperation, OrdMap.get?_insert, if_pos rfl]
  plan := ⟨rfl, rfl, rfl, rfl, rfl, rfl⟩
  others k hk := by rw [withOperation, setOperation, OrdMap.get?_insert, if_neg hk]
  members := rfl
  routing := rfl
  placements := rfl

theorem During.set (h : c.During shard placement destination c' op) (hplan : SamePlan op op')
    (hplaces : placements = c.placementsIn shard placement destination op'.phase) :
    c.During shard placement destination
      { c'.setOperation c.nextOperationId op' with placements } op' where
  found := by rw [setOperation, OrdMap.get?_insert, if_pos rfl]
  plan := h.plan.trans hplan
  others k hk := by
    rw [setOperation, OrdMap.get?_insert, if_neg hk]
    exact h.others k hk
  members := h.members
  routing := h.routing
  placements := hplaces

/-- Commands other than the commit and the last one leave the placements where they are. -/
theorem placementsIn_of_move (hmove : TransferMove op progress op')
    (hplain : progress.places = false) :
    c.placementsIn shard placement destination op'.phase =
      c.placementsIn shard placement destination op.phase := by
  cases hmove with
  | commit | complete => simp [TransferProgress.places] at hplain
  | beginSnapshot hphase | snapshotInstalled hphase | prepare hphase | beginFencing hphase
  | beginCleanup hphase => simp only [hphase, placementsIn]
  | catchUp | finalLsn | restart | restartAgain | fencedBootstrap | fencedCatchUp => rfl

theorem Cleaned.transferred (hget : c'.placements.get? shard =
      some (movedPlacement placement placement.primary destination))
    (hplan : SamePlan (c.plannedTransfer shard placement destination) op)
    (h : c'.Cleaned op placements) :
    placements = c'.placements.insert shard (Catalog.transferred placement destination) := by
  cases h with
  | retain hretain =>
    have hmem : destination ∈ placement.replicas := by
      have hsame := hplan.retain
      rw [hretain] at hsame
      exact of_decide_eq_true hsame.symm
    rw [Catalog.transferred, if_pos hmem, OrdMap.insert_of_get? hget]
  | drop hretain hshard hplace =>
    have hmem : destination ∉ placement.replicas := by
      have hsame := hplan.retain
      rw [hretain] at hsame
      exact of_decide_eq_false hsame.symm
    cases hplan.shard.symm.trans hshard
    cases hget.symm.trans hplace
    have hsource : op.source = some placement.primary := hplan.source
    rw [Catalog.transferred, if_neg hmem, hsource]
    congr 3
    funext node
    simp

/-- A command keeps the transfer under way as it is planned. -/
theorem During.apply (h : c.During shard placement destination c' op)
    (hplace : c.placements.get? shard = some placement)
    (happly : c'.applyTransfer c.nextOperationId progress = .ok c'') :
    ∃ op', c.During shard placement destination c'' op' := by
  obtain ⟨op₁, hfound, heffect⟩ := applyTransfer_iff.1 happly
  obtain rfl := Option.mem_unique hfound h.found
  split_ifs at heffect with hfor
  · cases heffect with
    | @move _ op' hkind hmove hplain =>
      have hplaces := h.placements.trans (placementsIn_of_move hmove hplain).symm
      exact ⟨op', h.set (samePlan_of_move hmove) hplaces⟩
    | @commit shard' source' destination' _ placement' hcommits hplace' hsame =>
      have hcommitted : ∀ p, c'.placements = c.placementsIn shard placement destination p →
          op₁.phase = p → p = .fencing → c'.placements = c.placements := by
        rintro p hp - rfl
        exact hp
      have hplaces := hcommitted _ h.placements rfl hcommits.phase
      obtain rfl := Option.mem_unique h.plan.shard hcommits.shard
      obtain rfl := Option.mem_unique h.plan.source hcommits.source
      obtain rfl := Option.mem_unique h.plan.destination hcommits.destination
      rw [hplaces, hplace] at hplace'
      obtain rfl := Option.some.inj hplace'
      refine ⟨_, h.set (samePlan_phase op₁ .committed op₁.lastError) ?_⟩
      rw [hplaces]
      rfl
    | @complete placements hkind hphase hcleaned =>
      have hplaces := h.placements
      rw [hphase] at hplaces
      have hget : c'.placements.get? shard =
          some (movedPlacement placement placement.primary destination) := by
        rw [hplaces, placementsIn, OrdMap.get?_insert, if_pos rfl]
      refine ⟨_, h.set (samePlan_phase op₁ .complete op₁.lastError) ?_⟩
      rw [hcleaned.transferred hget h.plan, hplaces, placementsIn, OrdMap.insert_insert]
      rfl
    | @abort reason hmay =>
      have hplaces : c'.placements = c.placements := by
        rw [h.placements]
        cases hphase : op₁.phase <;> rw [hphase] at hmay <;> first | rfl | cases hmay
      exact ⟨_, h.set (samePlan_phase op₁ .aborted (some reason)) hplaces⟩
  · obtain ⟨-, rfl⟩ := heffect
    exact ⟨op₁, h⟩

theorem During.applyAll (hplace : c.placements.get? shard = some placement)
    {commands : List TransferProgress} (h : c.During shard placement destination c' op)
    (happly : c'.applyTransfers c.nextOperationId commands = .ok c'') :
    ∃ op', c.During shard placement destination c'' op' := by
  induction commands generalizing c' op with
  | nil =>
    obtain rfl := Except.ok.inj happly
    exact ⟨op, h⟩
  | cons progress rest ih =>
    obtain ⟨next, hnext, happly⟩ := bind_eq_ok.1 happly
    obtain ⟨op', h'⟩ := h.apply hplace hnext
    exact ih h' happly

end Transfer

/-! ## Steps of the planner -/

variable {generation : Nat}

section Steps

variable {c c' : Catalog} {move : PrimaryMove}

theorem planNext_transfer {shard : ShardId} {source destination : NodeId}
    {decision : RebalanceDecision} {planned : Catalog}
    (hnext : c.nextRebalance = .ok (.transfer shard source destination generation))
    (h : c.planNext = .ok (decision, planned)) :
    ∃ placement, c.placements.get? shard = some placement ∧
      planned = c.withOperation (c.plannedTransfer shard placement destination) := by
  rw [planNext] at h
  obtain ⟨decided, hdecided, h⟩ := bind_eq_ok.1 h
  rw [hnext] at hdecided
  obtain rfl := Except.ok.inj hdecided
  obtain ⟨⟨id, started⟩, hstart, h⟩ := bind_eq_ok.1 h
  obtain ⟨-, rfl⟩ := Prod.mk.inj (Except.ok.inj h)
  obtain ⟨placement, hplace, -, -, rfl⟩ := startTransfer_planned hstart
  exact ⟨placement, hplace, rfl⟩

/-- What a step of the planner, carried out, does to the catalog. -/
structure Carried (move : PrimaryMove) (placement : ReplicaSet) (c' : Catalog) : Prop where
  before : c.placements.get? move.shard = some placement
  primary : placement.primary = move.source
  after : c'.placements = c.placements.insert move.shard (transferred placement move.destination)
  moved : c.Moved move c'

theorem budgetHolder_eq_none : c.budgetHolder = none ↔
    ∀ k op, c.operations.get? k = some op → op.kind = .transfer ∨ op.kind = .split →
      op.phase.terminal = true := by
  rw [budgetHolder, List.find?_eq_none]
  simp only [decide_eq_true_eq, not_and, Bool.not_eq_true, Bool.not_eq_false]
  exact ⟨fun h k op hget => h op (OrdMap.mem_values_of_get? hget), fun h op hop =>
    (OrdMap.mem_values.1 hop).elim fun k hget => h k op hget⟩

theorem PlannerStep.carried (hsound : c.Sound) (h : c.PlannerStep move c') :
    ∃ placement, c.Carried move placement c' := by
  obtain ⟨⟨generation, hnext⟩, decision, planned, commands, op, hplan, happly, hfound, hdone⟩ := h
  have hplanned := (decides_of_nextRebalance hnext).planned hsound
  obtain ⟨placement, hplace, rfl⟩ := planNext_transfer hnext hplan
  obtain ⟨op', hduring⟩ :=
    (during_planned c move.shard placement move.destination).applyAll hplace happly
  cases hduring.found.symm.trans hfound
  have hafter := hduring.placements
  rw [hdone] at hafter
  have hprimary : placement.primary = move.source := by
    have hsource := hplanned.source
    rw [primaryOf, hplace] at hsource
    exact Option.some.inj hsource
  refine ⟨placement, hplace, hprimary, hafter, hduring.members, hduring.routing, ?_, ?_⟩
  · rw [budgetHolder_eq_none]
    intro k op hop hkind
    by_cases hk : k = c.nextOperationId
    · rw [hk, hfound] at hop
      cases hop
      rw [hdone]
      rfl
    · rw [hduring.others k hk] at hop
      exact budgetHolder_eq_none.1 hplanned.plans.idle k op hop hkind
  · funext s
    rw [primaryOf, hafter, placementsIn, OrdMap.get?_insert, Function.update_apply]
    split_ifs
    · rw [Option.map_some, transferred]
      split_ifs <;> rfl
    · rfl

theorem PlannerStep.rebalanceStep (hsound : c.Sound) (h : c.PlannerStep move c') :
    c.RebalanceStep move c' := by
  obtain ⟨placement, hcarried⟩ := h.carried hsound
  exact ⟨h.decision, hcarried.moved⟩

end Steps

/-! ## Copies -/

/-- No shard has its primary among its replicas. -/
def Separate : Prop :=
  ∀ s p, c.placements.get? s = some p → p.primary ∉ p.replicas

/-- If a shard is to be taken off the node, the member it goes to has no copy of it. -/
def LeavesNoCopy (node : NodeId) : Prop :=
  ∀ shard placement, c.stranded = some (shard, placement) → placement.primary = node →
    ∀ destination ∈ c.leastLoaded (c.eligible.filter (· ≠ node)), destination ∉ placement.replicas

section Copies

variable {c c' : Catalog} {move : PrimaryMove} {placement : ReplicaSet} {node destination : NodeId}

theorem mem_movedPlacement :
    node ∈ (movedPlacement placement placement.primary destination).replicas ↔
      node = placement.primary ∨ (node ∈ placement.replicas ∧ node ≠ destination) := by
  rw [movedPlacement]
  split_ifs with hmem
  · rw [List.mem_filter, decide_eq_true_iff]
    constructor
    · exact .inr
    · rintro (rfl | h)
      · rw [List.mem_filter, decide_eq_true_iff] at hmem
        exact hmem
      · exact h
  · rw [List.mem_insertionSort, List.mem_append, List.mem_filter, decide_eq_true_iff,
      List.mem_singleton]
    exact or_comm

/-- The source keeps a copy if the destination had one; the other copies stay. -/
theorem mem_transferred (hne : node ≠ destination) :
    node ∈ (transferred placement destination).replicas ↔
      if node = placement.primary then destination ∈ placement.replicas
      else node ∈ placement.replicas := by
  rw [transferred]
  by_cases hcopy : destination ∈ placement.replicas
  · rw [if_pos hcopy, mem_movedPlacement]
    split_ifs with hprimary
    · simp [hprimary, hcopy]
    · simp [hprimary, hne]
  · rw [if_neg hcopy, List.mem_filter, mem_movedPlacement, decide_eq_true_iff]
    split_ifs with hprimary
    · simp [hprimary, hcopy]
    · simp [hprimary, hne]

theorem Carried.separate (h : c.Carried move placement c') (hne : move.source ≠ move.destination)
    (hseparate : c.Separate) : c'.Separate := by
  intro s p hget
  rw [h.after, OrdMap.get?_insert] at hget
  split_ifs at hget with hs
  · cases hget
    have hprimary : (transferred placement move.destination).primary = move.destination := by
      rw [transferred]
      split_ifs <;> rfl
    rw [hprimary]
    intro hmem
    have hmoved : move.destination ∈
        (movedPlacement placement placement.primary move.destination).replicas := by
      rw [transferred] at hmem
      split_ifs at hmem
      · exact hmem
      · exact List.mem_of_mem_filter hmem
    rw [mem_movedPlacement, h.primary] at hmoved
    rcases hmoved with heq | ⟨-, hself⟩
    · exact hne heq.symm
    · exact hself rfl
  · exact hseparate s p hget

theorem leavesNoCopy_iff (hsound : c.Sound) (hnode : c.NotActive node)
    (h : c.Decides (.transfer move.shard move.source move.destination generation))
    (hbefore : c.placements.get? move.shard = some placement) :
    c.LeavesNoCopy node ↔ (placement.primary = node → move.destination ∉ placement.replicas) := by
  obtain ⟨shard, source, destination⟩ := move
  cases h with
  | @evacuate _ placement' _ hplans hstranded hleast =>
    obtain ⟨hget, -⟩ := stranded_eq_some hstranded
    cases hget.symm.trans hbefore
    constructor
    · rintro h rfl
      exact h shard placement' hstranded rfl destination hleast
    · rintro h s p hs rfl d hd
      obtain ⟨rfl, rfl⟩ := Prod.mk.inj (Option.mem_unique hs hstranded)
      cases hd.symm.trans hleast
      exact h rfl
  | balance hplans hsettled henough hmost hleast huseful hshard =>
    obtain ⟨hsource, -⟩ := mostLoaded_spec hsound.weights hmost
    obtain ⟨hget, hprimary⟩ := shardToMove_spec hshard
    cases hget.symm.trans hbefore
    constructor
    · rintro - rfl
      rw [hprimary] at hnode
      exact absurd hnode (not_notActive_of_eligible hsound.keyed hsource)
    · intro _ s p hs
      rw [hsettled] at hs
      cases hs

/-- **Copies on a node that receives nothing.**  A transfer leaves the node without replicas
    exactly if it had none, and the shard taken off it goes to a member without a copy. -/
theorem PlannerStep.noReplica_iff (hsound : c.Sound) (hseparate : c.Separate)
    (h : c.PlannerStep move c') (hnode : c.NotActive node) :
    c'.NoReplica node ↔ c.NoReplica node ∧ c.LeavesNoCopy node := by
  obtain ⟨placement, hcarried⟩ := h.carried hsound
  obtain ⟨generation, hnext⟩ := h.decision
  have hdecides := decides_of_nextRebalance hnext
  have hne : node ≠ move.destination := by
    rintro rfl
    exact not_notActive_of_eligible hsound.keyed (hdecides.planned hsound).destination hnode
  have hafter : ∀ s, c'.placements.get? s = if s = move.shard then
      some (transferred placement move.destination) else c.placements.get? s := by
    intro s
    rw [hcarried.after, OrdMap.get?_insert]
  rw [leavesNoCopy_iff hsound hnode hdecides hcarried.before]
  constructor
  · intro h'
    have hmoved := h' move.shard _ (by rw [hafter, if_pos rfl])
    rw [mem_transferred hne] at hmoved
    refine ⟨fun s p hget => ?_, fun hprimary => by rwa [if_pos hprimary.symm] at hmoved⟩
    by_cases hs : s = move.shard
    · rw [hs, hcarried.before] at hget
      cases hget
      by_cases hprimary : node = placement.primary
      · rw [hprimary]
        exact hseparate _ _ hcarried.before
      · rwa [if_neg hprimary] at hmoved
    · exact h' s p (by rw [hafter, if_neg hs, hget])
  · rintro ⟨hnone, hcopy⟩ s p hget
    rw [hafter] at hget
    split_ifs at hget
    · cases hget
      rw [mem_transferred hne]
      split_ifs with hprimary
      · exact hcopy hprimary.symm
      · exact hnone _ _ hcarried.before
    · exact hnone s p hget

end Copies

end Catalog

end Shardlite.Cluster
