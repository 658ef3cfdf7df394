/-
  Shardlite.Cluster.Rebalance

  The planner of transfers: one decision from the committed placement map.  Primaries of members
  that are not active are evacuated first; then a primary moves from the most loaded eligible
  member to the least loaded one, if the receiver stays below the giver's load.  Only that pair
  is looked at, and with unequal weights another member may be the better receiver.
-/
import Shardlite.Cluster.CatalogValid
import Shardlite.Lib.TotalOn
import Shardlite.Lib.Balance

namespace Shardlite.Cluster

inductive RebalanceDecision where
  | balanced
  | waiting (operation : Nat)
  | needsSplit (activeShards eligibleMembers : Nat)
  | transfer (shard : ShardId) (source destination : NodeId) (expectedGeneration : Nat)
  deriving DecidableEq, Repr

namespace Catalog

/-! ## The planner -/

variable (c : Catalog)

/-- Transfers and splits share a budget of one operation. -/
def budgetHolder : Option CatalogOperation :=
  c.operations.values.find? fun op =>
    (op.kind = .transfer ∨ op.kind = .split) ∧ ¬ op.phase.terminal

/-- The members that may receive a primary, in the order of their ids. -/
def eligible : List NodeId :=
  (c.members.values.filter (·.mayReceivePlacement)).map (·.node)

/-- How many primaries the node has; nodes without any count as zero. -/
def count (node : NodeId) : Nat :=
  c.placements.values.countP fun placement => placement.primary = node

def capacity (node : NodeId) : Nat :=
  ((c.members.get? node).map Member.capacityWeight).getD 0

def normalizedLoadCmp (leftCount leftWeight rightCount rightWeight : Nat) : Ordering :=
  compare (leftCount * rightWeight) (rightCount * leftWeight)

def loadCmp (left right : NodeId) : Ordering :=
  normalizedLoadCmp (c.count left) (c.capacity left) (c.count right) (c.capacity right)

/-- The least loaded of the nodes, the lowest id among equals. -/
def leastLoaded (nodes : List NodeId) : Option NodeId :=
  minBy (fun left right => (c.loadCmp left right).then (compare left right)) nodes

/-- The most loaded of the nodes, the lowest id among equals. -/
def mostLoaded (nodes : List NodeId) : Option NodeId :=
  maxBy (fun left right => (c.loadCmp left right).then (compare right left)) nodes

/-- The first placement whose primary is a member that is not active. -/
def stranded : Option (ShardId × ReplicaSet) :=
  c.placements.entries.find? fun e => (c.members.get? e.2.primary).any (·.state ≠ .active)

/-- The source's shard that moves: one that the destination has a copy of, the lowest id
    otherwise. -/
def shardToMove (source destination : NodeId) : Option (ShardId × ReplicaSet) :=
  minBy (fun left right =>
      (compare (decide (destination ∉ left.2.replicas)) (decide (destination ∉ right.2.replicas))).then
        (compare left.1 right.1))
    (c.placements.entries.filter fun e => e.2.primary = source)

/-- A shard moves only where that leaves the receiver lighter than the giver was. -/
def balanceMove : Except Error RebalanceDecision := do
  let source ← expect (c.mostLoaded c.eligible) "eligible is non-empty"
  let destination ← expect (c.leastLoaded c.eligible) "eligible is non-empty"
  if c.count source * c.capacity destination ≤ (c.count destination + 1) * c.capacity source then
    return .balanced
  else
    let (shard, placement) ← expect (c.shardToMove source destination)
      "a positive source count has a placement"
    return .transfer shard source destination placement.generation

/-- The planner: wait for the budget, evacuate, or balance. -/
def nextRebalance : Except Error RebalanceDecision :=
  match c.budgetHolder with
  | some op => .ok (.waiting op.id)
  | none => do
    refuseIf (c.placements.size ≠ c.routing.shardCount)
      (.clusterConfig ("cannot rebalance an incomplete placement map: " ++
        s!"{c.placements.size} of {c.routing.shardCount} active shards are assigned"))
    refuseIf (c.eligible = [])
      (.clusterConfig
        "cannot rebalance: no active storage or voter member may receive a primary")
    match c.stranded with
    | some (shard, placement) =>
      let destination ← okOr (c.leastLoaded (c.eligible.filter (· ≠ placement.primary)))
        (.clusterConfig (s!"cannot evacuate node {placement.primary}: no other active " ++
          "storage member is available"))
      return .transfer shard placement.primary destination placement.generation
    | none =>
      if c.routing.shardCount < c.eligible.length % 2 ^ 32 then
        return .needsSplit c.routing.shardCount c.eligible.length
      else c.balanceMove

/-- Persist the planner's transfer; other decisions change nothing. -/
def planNext : Except Error (RebalanceDecision × Catalog) := do
  let decision ← c.nextRebalance
  match decision with
  | .transfer shard _ destination _ =>
    let (_, planned) ← c.startTransfer shard destination
    return (decision, planned)
  | _ => return (decision, c)

/-! ## Loads -/

/-- Members are stored under their own ids. -/
def Keyed : Prop := ∀ k m, c.members.get? k = some m → m.node = k

/-- A member of the catalog that is not active. -/
def NotActive (node : NodeId) : Prop :=
  ∃ m, c.members.get? node = some m ∧ m.state ≠ .active

variable {source : NodeId}

section Loads

variable {c : Catalog}
variable {m : Member} {node : NodeId} {nodes : List NodeId} {e : ShardId × ReplicaSet}

theorem keyed_iff : c.Keyed ↔ ∀ e ∈ c.members.entries, e.2.node = e.1 :=
  (c.members.forall_entries fun k m => m.node = k).symm

theorem mem_eligible (hkeyed : c.Keyed) :
    node ∈ c.eligible ↔ ∃ m, c.members.get? node = some m ∧ m.mayReceivePlacement = true := by
  rw [eligible, List.mem_map]
  constructor
  · rintro ⟨m, hm, rfl⟩
    obtain ⟨hm, hmay⟩ := List.mem_filter.1 hm
    obtain ⟨k, hget⟩ := OrdMap.mem_values.1 hm
    exact ⟨m, (hkeyed k m hget).symm ▸ hget, hmay⟩
  · rintro ⟨m, hget, hmay⟩
    exact ⟨m, List.mem_filter.2 ⟨OrdMap.mem_values_of_get? hget, hmay⟩, hkeyed node m hget⟩

theorem capacity_pos (hwf : c.WellFormed) (h : c.members.get? node = some m) :
    0 < c.capacity node := by
  have hcheck := hwf.members m (OrdMap.mem_values_of_get? h)
  rw [validateMember, check_then, refuseIf_eq_ok] at hcheck
  rw [capacity, h]
  exact Nat.pos_of_ne_zero hcheck.1

theorem capacity_pos_of_eligible (hwf : c.WellFormed) (hkeyed : c.Keyed) (h : node ∈ c.eligible) :
    0 < c.capacity node := by
  obtain ⟨m, hget, -⟩ := (mem_eligible hkeyed).1 h
  exact capacity_pos hwf hget

theorem not_notActive_of_eligible (hkeyed : c.Keyed) (h : node ∈ c.eligible) :
    ¬ c.NotActive node := by
  rintro ⟨m, hget, hstate⟩
  obtain ⟨m', hget', hmay⟩ := (mem_eligible hkeyed).1 h
  obtain rfl : m' = m := Option.mem_unique hget' hget
  simp only [Member.mayReceivePlacement, decide_eq_true_eq] at hmay
  exact hstate hmay.2

theorem loadCmp_isLE {a b : NodeId} :
    (c.loadCmp a b).isLE = true ↔ c.count a * c.capacity b ≤ c.count b * c.capacity a := by
  rw [loadCmp, normalizedLoadCmp, Ordering.isLE_iff_ne_gt]
  exact compare_le_iff_le

/-- Comparing crosswise is comparing fractions, where no weight is zero. -/
theorem totalOn_loadCmp : TotalOn (fun node => 0 < c.capacity node) c.loadCmp := by
  constructor
  · intro a b _ _
    rw [loadCmp, loadCmp, normalizedLoadCmp, normalizedLoadCmp]
    exact Std.OrientedCmp.eq_swap
  · intro x y z _ hy _ hxy hyz
    rw [loadCmp_isLE] at hxy hyz ⊢
    apply le_of_mul_le_mul_right _ hy
    calc c.count x * c.capacity z * c.capacity y = c.count x * c.capacity y * c.capacity z := by ring
      _ ≤ c.count y * c.capacity x * c.capacity z := Nat.mul_le_mul_right _ hxy
      _ = c.count y * c.capacity z * c.capacity x := by ring
      _ ≤ c.count z * c.capacity y * c.capacity x := Nat.mul_le_mul_right _ hyz
      _ = c.count z * c.capacity x * c.capacity y := by ring

theorem isLE_of_then {o o' : Ordering} (h : (o.then o').isLE = true) : o.isLE = true := by
  cases o <;> first | rfl | exact h

theorem leastLoaded_spec (hpos : ∀ node ∈ nodes, 0 < c.capacity node)
    (h : c.leastLoaded nodes = some node) :
    node ∈ nodes ∧ ∀ x ∈ nodes, c.count node * c.capacity x ≤ c.count x * c.capacity node := by
  have hids : TotalOn (fun node => 0 < c.capacity node) (compare : NodeId → NodeId → Ordering) :=
    TotalOn.of_linearOrder.mono fun _ _ => trivial
  obtain ⟨hmem, hle⟩ := minBy_eq_some (totalOn_loadCmp.then hids) hpos h
  exact ⟨hmem, fun x hx => loadCmp_isLE.1 (isLE_of_then (hle x hx))⟩

theorem mostLoaded_spec (hpos : ∀ node ∈ nodes, 0 < c.capacity node)
    (h : c.mostLoaded nodes = some node) :
    node ∈ nodes ∧ Balance.Heaviest c.capacity c.count nodes.toFinset node := by
  have hids : TotalOn (fun node => 0 < c.capacity node)
      fun left right : NodeId => compare right left :=
    ⟨fun _ _ _ _ => Std.OrientedCmp.eq_swap,
      fun _ _ _ _ _ _ hab hbc => Std.TransCmp.isLE_trans hbc hab⟩
  obtain ⟨hmem, hle⟩ := maxBy_eq_some (totalOn_loadCmp.then hids) hpos h
  refine ⟨hmem, fun x hx => loadCmp_isLE.1 (isLE_of_then (hle x ?_))⟩
  exact List.mem_toFinset.1 hx

theorem shardToMove_spec {destination : NodeId} (h : c.shardToMove source destination = some e) :
    c.placements.get? e.1 = some e.2 ∧ e.2.primary = source := by
  have hcopies := (@TotalOn.of_linearOrder Bool _).comap
    fun e : ShardId × ReplicaSet => decide (destination ∉ e.2.replicas)
  have hids := (@TotalOn.of_linearOrder ShardId _).comap
    fun e : ShardId × ReplicaSet => e.1
  obtain ⟨hmem, -⟩ := minBy_eq_some (hcopies.then hids) (fun _ _ => trivial) h
  obtain ⟨hentry, hprimary⟩ := List.mem_filter.1 hmem
  exact ⟨OrdMap.get?_eq_some_iff.2 hentry, by simpa using hprimary⟩

theorem shardToMove_isSome (destination : NodeId) (h : 0 < c.count source) :
    ∃ e, c.shardToMove source destination = some e := by
  apply minBy_isSome
  rw [count, OrdMap.values, List.countP_map, List.countP_pos_iff] at h
  obtain ⟨e, he, hprimary⟩ := h
  exact List.ne_nil_of_mem (List.mem_filter.2 ⟨he, hprimary⟩)

theorem isStranded_iff :
    (c.members.get? e.2.primary).any (·.state ≠ .active) = true ↔ c.NotActive e.2.primary := by
  simp [NotActive, Option.any_eq_true]

theorem stranded_eq_none : c.stranded = none ↔
    ∀ s p, c.placements.get? s = some p → ¬ c.NotActive p.primary := by
  rw [stranded, List.find?_eq_none]
  simp only [isStranded_iff]
  exact c.placements.forall_entries fun _ p => ¬ c.NotActive p.primary

theorem stranded_eq_some (h : c.stranded = some e) :
    c.placements.get? e.1 = some e.2 ∧ c.NotActive e.2.primary := by
  have hfound := List.find?_some h
  exact ⟨OrdMap.get?_eq_some_iff.2 (List.mem_of_find?_eq_some h), isStranded_iff.1 hfound⟩

end Loads

/-! ## Decisions -/

/-- The planner gets to plan: nothing is in progress, the map is complete, and some member may
    receive a primary. -/
structure Plans : Prop where
  idle : c.budgetHolder = none
  complete : c.placements.size = c.routing.shardCount
  eligible : c.eligible ≠ []

/-- There are no more eligible members than shards, counted in 32 bits. -/
def EnoughShards : Prop := ¬ c.routing.shardCount < c.eligible.length % 2 ^ 32

/-- The planner's branches, by what they return. -/
inductive Decides (c : Catalog) : RebalanceDecision → Prop where
  | waiting {op : CatalogOperation} (hbusy : c.budgetHolder = some op) : Decides c (.waiting op.id)
  | evacuate {shard : ShardId} {placement : ReplicaSet} {destination : NodeId} (hplans : c.Plans)
      (hstranded : c.stranded = some (shard, placement))
      (hleast : c.leastLoaded (c.eligible.filter (· ≠ placement.primary)) = some destination) :
      Decides c (.transfer shard placement.primary destination placement.generation)
  | needsSplit (hplans : c.Plans) (hsettled : c.stranded = none) (hfew : ¬ c.EnoughShards) :
      Decides c (.needsSplit c.routing.shardCount c.eligible.length)
  | balanced {source destination : NodeId} (hplans : c.Plans) (hsettled : c.stranded = none)
      (henough : c.EnoughShards) (hmost : c.mostLoaded c.eligible = some source)
      (hleast : c.leastLoaded c.eligible = some destination)
      (huseful : ¬ Balance.Useful c.capacity c.count source destination) : Decides c .balanced
  | balance {source destination : NodeId} {shard : ShardId} {placement : ReplicaSet}
      (hplans : c.Plans) (hsettled : c.stranded = none) (henough : c.EnoughShards)
      (hmost : c.mostLoaded c.eligible = some source)
      (hleast : c.leastLoaded c.eligible = some destination)
      (huseful : Balance.Useful c.capacity c.count source destination)
      (hshard : c.shardToMove source destination = some (shard, placement)) :
      Decides c (.transfer shard source destination placement.generation)

section Decisions

variable {c : Catalog} {decision : RebalanceDecision}

theorem decides_of_balanceMove (hplans : c.Plans) (hsettled : c.stranded = none)
    (henough : c.EnoughShards) (h : c.balanceMove = .ok decision) : c.Decides decision := by
  rw [balanceMove] at h
  obtain ⟨source, hmost, h⟩ := bind_eq_ok.1 h
  obtain ⟨destination, hleast, h⟩ := bind_eq_ok.1 h
  rw [expect_eq_ok] at hmost hleast
  split_ifs at h with huseful
  · obtain rfl := Except.ok.inj h
    exact .balanced hplans hsettled henough hmost hleast (not_lt.2 huseful)
  · obtain ⟨⟨shard, placement⟩, hshard, h⟩ := bind_eq_ok.1 h
    rw [expect_eq_ok] at hshard
    obtain rfl := Except.ok.inj h
    exact .balance hplans hsettled henough hmost hleast (not_le.1 huseful) hshard

theorem decides_of_nextRebalance (h : c.nextRebalance = .ok decision) : c.Decides decision := by
  rw [nextRebalance] at h
  cases hbusy : c.budgetHolder with
  | some op =>
    rw [hbusy] at h
    obtain rfl := Except.ok.inj h
    exact .waiting hbusy
  | none =>
    rw [hbusy] at h
    obtain ⟨_, hcomplete, h⟩ := bind_eq_ok.1 h
    obtain ⟨_, heligible, h⟩ := bind_eq_ok.1 h
    rw [refuseIf_eq_ok, not_not] at hcomplete
    rw [refuseIf_eq_ok] at heligible
    have hplans : c.Plans := ⟨hbusy, hcomplete, heligible⟩
    cases hstranded : c.stranded with
    | some e =>
      obtain ⟨shard, placement⟩ := e
      rw [hstranded] at h
      obtain ⟨destination, hleast, h⟩ := bind_eq_ok.1 h
      rw [okOr_eq_ok] at hleast
      obtain rfl := Except.ok.inj h
      exact .evacuate hplans hstranded hleast
    | none =>
      rw [hstranded] at h
      split_ifs at h with hfew
      · obtain rfl := Except.ok.inj h
        exact .needsSplit hplans hstranded (not_not.2 hfew)
      · exact decides_of_balanceMove hplans hstranded hfew h

/-- Past its checks the planner evacuates, asks for a split, or compares loads. -/
theorem nextRebalance_of_plans (hplans : c.Plans) {result : Except Error RebalanceDecision}
    (h : (match c.stranded with
      | some (shard, placement) => do
        let destination ← okOr (c.leastLoaded (c.eligible.filter (· ≠ placement.primary)))
          (.clusterConfig (s!"cannot evacuate node {placement.primary}: no other active " ++
            "storage member is available"))
        return .transfer shard placement.primary destination placement.generation
      | none =>
        if c.routing.shardCount < c.eligible.length % 2 ^ 32 then
          return .needsSplit c.routing.shardCount c.eligible.length
        else c.balanceMove) = result) : c.nextRebalance = result := by
  rw [nextRebalance, hplans.idle, refuseIf, if_neg (not_not.2 hplans.complete), refuseIf,
    if_neg hplans.eligible]
  exact h

theorem nextRebalance_of_decides (h : c.Decides decision) : c.nextRebalance = .ok decision := by
  cases h with
  | waiting hbusy => rw [nextRebalance, hbusy]
  | evacuate hplans hstranded hleast =>
    apply nextRebalance_of_plans hplans
    rw [hstranded]
    exact bind_eq_ok.2 ⟨_, okOr_eq_ok.2 hleast, rfl⟩
  | needsSplit hplans hsettled hfew =>
    apply nextRebalance_of_plans hplans
    rw [hsettled]
    exact if_pos (not_not.1 hfew)
  | balanced hplans hsettled henough hmost hleast huseful =>
    apply nextRebalance_of_plans hplans
    rw [hsettled]
    apply (if_neg henough).trans
    rw [balanceMove, hmost, hleast]
    exact if_pos (not_lt.1 huseful)
  | balance hplans hsettled henough hmost hleast huseful hshard =>
    apply nextRebalance_of_plans hplans
    rw [hsettled]
    apply (if_neg henough).trans
    rw [balanceMove, hmost, hleast]
    apply (if_neg (not_le.2 huseful)).trans
    rw [hshard]
    rfl

/-- With nothing in progress, a complete map and a member to receive, the planner decides. -/
theorem exists_decides (hkeyed : c.Keyed) (hplans : c.Plans) : ∃ decision, c.Decides decision := by
  cases hstranded : c.stranded with
  | some e =>
    obtain ⟨shard, placement⟩ := e
    obtain ⟨hget, hnot⟩ := stranded_eq_some hstranded
    have hkept : c.eligible.filter (· ≠ placement.primary) ≠ [] := by
      obtain ⟨node, hnode⟩ := List.exists_mem_of_ne_nil _ hplans.eligible
      apply List.ne_nil_of_mem (a := node)
      refine List.mem_filter.2 ⟨hnode, ?_⟩
      rw [decide_eq_true_iff]
      rintro rfl
      exact not_notActive_of_eligible hkeyed hnode hnot
    obtain ⟨destination, hleast⟩ := minBy_isSome _ hkept
    exact ⟨_, .evacuate hplans hstranded hleast⟩
  | none =>
    by_cases henough : c.EnoughShards
    · obtain ⟨source, hmost⟩ := maxBy_isSome
        (fun left right => (c.loadCmp left right).then (compare right left)) hplans.eligible
      obtain ⟨destination, hleast⟩ := minBy_isSome
        (fun left right => (c.loadCmp left right).then (compare left right)) hplans.eligible
      by_cases huseful : Balance.Useful c.capacity c.count source destination
      · obtain ⟨⟨shard, placement⟩, hshard⟩ := shardToMove_isSome destination huseful.pos
        exact ⟨_, .balance hplans hstranded henough hmost hleast huseful hshard⟩
      · exact ⟨_, .balanced hplans hstranded henough hmost hleast huseful⟩
    · exact ⟨_, .needsSplit hplans hstranded henough⟩

end Decisions

/-! ## Balanced -/

/-- No move between eligible members is useful by the planner's own rule. -/
def NoUsefulMove : Prop :=
  ∀ a ∈ c.eligible, ∀ b ∈ c.eligible, a ≠ b →
    c.count a * c.capacity b ≤ (c.count b + 1) * c.capacity a

/-- Whoever could usefully give a primary to a member could as well give it to any lighter
    member that is no more loaded.  Among members of equal weight this asks nothing. -/
def LighterReceives : Prop :=
  ∀ a ∈ c.eligible, ∀ b ∈ c.eligible, ∀ d ∈ c.eligible, c.capacity d < c.capacity b →
    c.count d * c.capacity b ≤ c.count b * c.capacity d →
      Balance.Useful c.capacity c.count a b → Balance.Useful c.capacity c.count a d

instance : Decidable c.NoUsefulMove :=
  inferInstanceAs (Decidable (∀ a ∈ c.eligible, ∀ b ∈ c.eligible, a ≠ b → _ ≤ _))

instance : Decidable c.LighterReceives :=
  inferInstanceAs (Decidable (∀ a ∈ c.eligible, ∀ b ∈ c.eligible, ∀ d ∈ c.eligible, _ → _ → _ → _))

section Balanced

variable {c : Catalog}

/-- Three members of these weights, of which the first has all three shards. -/
def threeShards (first second third : Nat) : Catalog :=
  .ofMembers ⟨1, 1, Nat.succ_lt_succ (Nat.succ_pos 30), Nat.lt_two_pow_self⟩
    [(1, ⟨1, 1, "a", .voter, .active, first, none⟩),
      (2, ⟨2, 1, "b", .storage, .active, second, none⟩),
      (3, ⟨3, 1, "c", .storage, .active, third, none⟩)]
    [(0, ⟨1, 1, []⟩), (1, ⟨1, 1, []⟩), (2, ⟨1, 1, []⟩)]

end Balanced

end Catalog

end Shardlite.Cluster
