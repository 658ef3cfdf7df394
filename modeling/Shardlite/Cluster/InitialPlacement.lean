/-
  Shardlite.Cluster.InitialPlacement

  The first placement map, and what the planner makes of it.  Shard after shard
  the primary goes to the eligible member whose load is least at that moment.
  The planner judges a member by the load it would have after a move, so with
  unequal weights it may find a move in a map that was just dealt.
-/
import Shardlite.Cluster.RebalanceRun
import Shardlite.Lib.Dealing

namespace Shardlite.Cluster.Catalog

/-! ## The initial map -/

def sameFailureDomain : Option String → Option String → Bool
  | some left, some right => left = right
  | _, _ => false

def failureDomain (c : Catalog) (node : NodeId) : Option String :=
  (c.members.get? node).bind Member.failureDomain

/-- The members other than the primary, those of its failure domain last. -/
def replicaCandidates (c : Catalog) (primary : NodeId) : List NodeId :=
  let sameDomain node := sameFailureDomain (c.failureDomain primary) (c.failureDomain node)
  (c.eligible.filter (· ≠ primary)).insertionSort fun left right =>
    ((compare (sameDomain left) (sameDomain right)).then (compare left right)).isLE = true

/-- Place one shard: the primary on the least loaded member by the primaries
    dealt so far, and copies on the first candidates. -/
def placeShard (c : Catalog) (copies : Nat)
    (placed : (NodeId → Nat) × OrdMap ShardId ReplicaSet) (shard : ShardId) :
    Except Error ((NodeId → Nat) × OrdMap ShardId ReplicaSet) := do
  let (primaryCounts, placements) := placed
  let primary ← expect
    (minBy (fun left right =>
      (normalizedLoadCmp (primaryCounts left) (c.capacity left) (primaryCounts right)
        (c.capacity right)).then (compare left right)) c.eligible)
    "eligible is non-empty"
  return (Function.update primaryCounts primary (primaryCounts primary + 1),
    placements.insert shard ⟨1, primary, (c.replicaCandidates primary).take (copies - 1)⟩)

/-- The first placement of every shard; it is made once. -/
def initializePlacements (c : Catalog) (copies : Nat) : Except Error Catalog := do
  refuseIf (c.placements.isEmpty = false)
    (.clusterConfig "initial placement already exists; use transfer operations to change it")
  refuseIf (copies = 0) (.clusterConfig "placement requires at least one copy")
  refuseIf (c.eligible.length < copies)
    (.clusterConfig (s!"placement requests {copies} copies but only {c.eligible.length} active " ++
      "storage/voter members are eligible"))
  let placed ← (List.range c.routing.shardCount).foldlM (c.placeShard copies)
    (fun _ => 0, c.placements)
  return { c with placements := placed.2 }

/-! ## Dealing the shards -/

section Placing

variable {c c' : Catalog} {copies n : Nat} {counts : NodeId → Nat}
  {placements : OrdMap ShardId ReplicaSet}

/-- The first `n` shards are placed, and their primaries were dealt and counted. -/
structure Placing (c : Catalog) (n : Nat) (counts : NodeId → Nat)
    (placements : OrdMap ShardId ReplicaSet) : Prop where
  dealt : Balance.Dealt c.capacity c.eligible.toFinset counts
  total : ∑ node ∈ c.eligible.toFinset, counts node = n
  keys : placements.keys = List.range n
  counted : ∀ node, (placements.values.countP fun p => p.primary = node) = counts node
  primaries : ∀ p ∈ placements.values, p.primary ∈ c.eligible
  replicas : ∀ p ∈ placements.values, ∀ r ∈ p.replicas, r ≠ p.primary ∧ r ∈ c.eligible

variable {placed : (NodeId → Nat) × OrdMap ShardId ReplicaSet}

/-- Comparing loads crosswise, and ids among equals, is comparing turns. -/
theorem isLE_iff_turn_le {left right : NodeId} (hleft : 0 < c.capacity left)
    (hright : 0 < c.capacity right) :
    ((normalizedLoadCmp (counts left) (c.capacity left) (counts right) (c.capacity right)).then
      (compare left right)).isLE = true ↔
    Balance.turn c.capacity left (counts left) ≤ Balance.turn c.capacity right (counts right) := by
  rw [Balance.turn_le_iff hleft hright, normalizedLoadCmp, TotalOn.isLE_then]
  rw [compare_lt_iff_lt, compare_eq_iff_eq, Ordering.isLE_iff_ne_gt, ← ne_eq, compare_le_iff_le]

theorem totalOn_turn (counts : NodeId → Nat) : TotalOn (fun node => 0 < c.capacity node)
    fun left right => (normalizedLoadCmp (counts left) (c.capacity left) (counts right)
      (c.capacity right)).then (compare left right) := by
  constructor
  · intro left right _ _
    have hload : normalizedLoadCmp (counts right) (c.capacity right) (counts left) (c.capacity left) =
        (normalizedLoadCmp (counts left) (c.capacity left) (counts right)
          (c.capacity right)).swap := by
      rw [normalizedLoadCmp, normalizedLoadCmp]
      exact Std.OrientedCmp.eq_swap
    have hid : compare right left = (compare left right).swap := Std.OrientedCmp.eq_swap
    rw [Ordering.swap_then, ← hload, ← hid]
  · intro x y z hx hy hz hxy hyz
    rw [isLE_iff_turn_le hx hy] at hxy
    rw [isLE_iff_turn_le hy hz] at hyz
    exact (isLE_iff_turn_le hx hz).2 (hxy.trans hyz)

/-- The least loaded member, the lowest id among equals, is the one whose turn it is. -/
theorem nextTurn_of_minBy (hpos : ∀ node ∈ c.eligible, 0 < c.capacity node) {node : NodeId}
    (h : minBy (fun left right => (normalizedLoadCmp (counts left) (c.capacity left) (counts right)
      (c.capacity right)).then (compare left right)) c.eligible = some node) :
    Balance.NextTurn c.capacity c.eligible.toFinset counts node := by
  obtain ⟨hmem, hle⟩ := minBy_eq_some (totalOn_turn counts) hpos h
  refine ⟨List.mem_toFinset.2 hmem, fun x hx => ?_⟩
  have hx' := List.mem_toFinset.1 hx
  exact (isLE_iff_turn_le (hpos node hmem) (hpos x hx')).1 (hle x hx')

theorem Placing.start : Placing c 0 (fun _ => 0) .empty :=
  ⟨Balance.Dealt.zero, Finset.sum_const_zero, rfl, fun _ => rfl, nofun, nofun⟩

section

variable (hpos : ∀ node ∈ c.eligible, 0 < c.capacity node)

include hpos

theorem Placing.placeShard (h : Placing c n counts placements)
    (hplace : c.placeShard copies (counts, placements) n = .ok placed) :
    Placing c (n + 1) placed.1 placed.2 := by
  obtain ⟨primary, hprimary, hresult⟩ := bind_eq_ok.1 hplace
  rw [expect_eq_ok] at hprimary
  obtain rfl := Except.ok.inj hresult
  have hnext := nextTurn_of_minBy hpos hprimary
  have hbelow : ∀ e ∈ placements.entries, e.1 < n := by
    intro e he
    have hkey : e.1 ∈ placements.keys := List.mem_map_of_mem he
    rw [h.keys] at hkey
    exact List.mem_range.1 hkey
  have hentries := OrdMap.entries_insert_of_forall_lt
    ⟨1, primary, (c.replicaCandidates primary).take (copies - 1)⟩ hbelow
  constructor
  · exact h.dealt.deal (fun x hx => hpos x (List.mem_toFinset.1 hx)) hnext
  · rw [Finset.sum_update_of_mem hnext.1, ← h.total, ← Finset.sum_erase_add _ _ hnext.1,
      Finset.sdiff_singleton_eq_erase]
    omega
  · rw [OrdMap.keys, hentries, List.map_append, List.range_succ, ← h.keys]
    rfl
  · intro node
    have hold := h.counted node
    rw [OrdMap.values, hentries, List.map_append, List.countP_append, ← OrdMap.values, hold]
    by_cases hnode : node = primary
    · subst hnode
      simp
    · simp [Function.update_of_ne hnode, Ne.symm hnode]
  · intro p hp
    rw [OrdMap.values, hentries, List.map_append, List.mem_append] at hp
    rcases hp with hp | hp
    · exact h.primaries p hp
    · rw [List.mem_singleton.1 hp]
      exact List.mem_toFinset.1 hnext.1
  · intro p hp r hr
    rw [OrdMap.values, hentries, List.map_append, List.mem_append] at hp
    rcases hp with hp | hp
    · exact h.replicas p hp r hr
    · obtain rfl := List.mem_singleton.1 hp
      have hcandidate : r ∈ c.replicaCandidates primary := List.mem_of_mem_take hr
      rw [replicaCandidates, List.mem_insertionSort, List.mem_filter] at hcandidate
      exact ⟨of_decide_eq_true hcandidate.2, hcandidate.1⟩

theorem Placing.foldlM
    (h : (List.range n).foldlM (c.placeShard copies) (fun _ => 0, .empty) = .ok placed) :
    Placing c n placed.1 placed.2 := by
  induction n generalizing placed with
  | zero =>
    obtain rfl := Except.ok.inj h
    exact Placing.start
  | succ n ih =>
    rw [List.range_succ, List.foldlM_append] at h
    obtain ⟨before, hbefore, hlast⟩ := bind_eq_ok.1 h
    rw [List.foldlM_cons] at hlast
    obtain ⟨after, hafter, hnil⟩ := bind_eq_ok.1 hlast
    obtain rfl := Except.ok.inj hnil
    exact (ih hbefore).placeShard hpos hafter

theorem initializePlacements_eq_ok (h : c.initializePlacements copies = .ok c') :
    c.eligible ≠ [] ∧ ∃ counts placements, Placing c c.routing.shardCount counts placements ∧
      c' = { c with placements } := by
  simp only [initializePlacements, bind_eq_ok] at h
  obtain ⟨_, hempty, _, hcopies, _, henough, placed, hplaced, h⟩ := h
  obtain rfl := Except.ok.inj h
  rw [refuseIf_eq_ok] at hempty hcopies henough
  have hnone : c.placements = .empty := by
    rw [Bool.not_eq_false, OrdMap.isEmpty, List.isEmpty_iff] at hempty
    cases hp : c.placements with
    | mk entries sorted =>
      rw [hp] at hempty
      subst hempty
      rfl
  rw [hnone] at hplaced
  refine ⟨?_, placed.1, placed.2, Placing.foldlM hpos hplaced, rfl⟩
  intro hnil
  rw [hnil, List.length_nil] at henough
  omega

end

/-- Every shard of the initial map passes the catalog's check. -/
theorem Placing.validatePlacement (h : Placing c c.routing.shardCount counts placements)
    (hkeyed : c.Keyed) {shard : ShardId} {p : ReplicaSet} (hp : placements.get? shard = some p) :
    c.validatePlacement shard p = .ok () := by
  have hvalue := OrdMap.mem_values_of_get? hp
  have hkey : shard ∈ placements.keys := List.mem_map_of_mem (OrdMap.get?_eq_some_iff.1 hp)
  rw [h.keys, List.mem_range] at hkey
  obtain ⟨m, hm, hmay⟩ := (mem_eligible hkeyed).1 (h.primaries p hvalue)
  refine validatePlacement_iff.2 ⟨hkey, ⟨m, hm, (of_decide_eq_true hmay).1⟩, fun r hr => ?_⟩
  obtain ⟨hne, hmem⟩ := h.replicas p hvalue r hr
  obtain ⟨m', hm', -⟩ := (mem_eligible hkeyed).1 hmem
  exact ⟨hne, by rw [OrdMap.contains, hm']; rfl⟩

end Placing

/-! ## The planner on the initial map -/

/-- The weights and the number of shards make the dealt map useful to change.
    Let `next` be the member that would get one more shard, as its shard after
    `k` others; then some member has so many by then that giving one of them to
    `next` leaves `next` below that member's load. -/
def Overshoots (c : Catalog) : Prop :=
  ∃ next ∈ c.eligible.toFinset, ∃ k ≤ c.routing.shardCount,
    ∑ node ∈ c.eligible.toFinset, Balance.share c.capacity next k node = c.routing.shardCount ∧
      ∃ node ∈ c.eligible.toFinset,
        Balance.Useful c.capacity (Balance.share c.capacity next k) node next

instance (c : Catalog) : Decidable c.Overshoots :=
  inferInstanceAs (Decidable (∃ next ∈ c.eligible.toFinset, ∃ k ≤ c.routing.shardCount, _ ∧ _))

section Initial

variable {c c' : Catalog} {copies : Nat} {counts : NodeId → Nat}
  {placements : OrdMap ShardId ReplicaSet}

def Idle (c : Catalog) : Prop := ∀ op ∈ c.operations.values, op.phase.terminal = true

theorem Idle.budgetHolder (h : c.Idle) : c.budgetHolder = none := by
  rw [Catalog.budgetHolder, List.find?_eq_none]
  intro op hop
  simp [h op hop]

theorem Placing.stranded (hkeyed : c.Keyed)
    (h : Placing c c.routing.shardCount counts placements) :
    ({ c with placements } : Catalog).stranded = none := by
  rw [stranded_eq_none]
  intro s p hget hnot
  exact not_notActive_of_eligible hkeyed (h.primaries p (OrdMap.mem_values_of_get? hget)) hnot

theorem Placing.plans (hidle : c.Idle) (hsome : c.eligible ≠ [])
    (h : Placing c c.routing.shardCount counts placements) :
    ({ c with placements } : Catalog).Plans := by
  refine ⟨hidle.budgetHolder, ?_, hsome⟩
  have hlen := congrArg List.length h.keys
  rw [OrdMap.keys, List.length_map, List.length_range] at hlen
  exact hlen

theorem Placing.count_eq (h : Placing c c.routing.shardCount counts placements) :
    ({ c with placements } : Catalog).count = counts :=
  funext h.counted

/-- The planner compares the most loaded member with the one whose turn it is. -/
theorem Placing.transfer_iff (hpos : ∀ node ∈ c.eligible, 0 < c.capacity node) (hkeyed : c.Keyed)
    (hidle : c.Idle) (hsome : c.eligible ≠ [])
    (h : Placing c c.routing.shardCount counts placements) :
    (∃ shard source destination generation, ({ c with placements } : Catalog).nextRebalance =
      .ok (.transfer shard source destination generation)) ↔ c.EnoughShards ∧ c.Overshoots := by
  have hsettled := h.stranded hkeyed
  have hplans := h.plans hidle hsome
  have hcount := h.count_eq
  have hpos' : ∀ node ∈ c.eligible.toFinset, 0 < c.capacity node :=
    fun node hnode => hpos node (List.mem_toFinset.1 hnode)
  obtain ⟨source, hmost⟩ := maxBy_isSome (fun left right =>
    (({ c with placements } : Catalog).loadCmp left right).then (compare right left)) hsome
  obtain ⟨destination, hleast⟩ := minBy_isSome (fun left right =>
    (({ c with placements } : Catalog).loadCmp left right).then (compare left right)) hsome
  -- the destination is the member whose turn it is, the source a heaviest one
  have hnext : Balance.NextTurn c.capacity c.eligible.toFinset counts destination := by
    apply nextTurn_of_minBy hpos
    rw [← hcount]
    exact hleast
  have hheaviest := mostLoaded_spec (c := { c with placements }) hpos hmost
  have huseful : Balance.Useful c.capacity counts source destination ↔ c.Overshoots := by
    rw [Overshoots, ← h.total, ← h.dealt.exists_useful_iff hpos' hnext]
    constructor
    · intro hmove
      exact ⟨source, List.mem_toFinset.2 hheaviest.1, hmove⟩
    · rintro ⟨node, hnode, hmove⟩
      have hheavy := hheaviest.2
      rw [hcount] at hheavy
      exact hheavy.useful (hpos source hheaviest.1) hnode hmove
  rw [← huseful, ← hcount]
  constructor
  · rintro ⟨shard, source', destination', generation, hplan⟩
    cases decides_of_nextRebalance hplan with
    | evacuate _ hstranded _ => rw [hsettled] at hstranded; cases hstranded
    | balance _ _ henough hmost' hleast' hmove _ =>
      obtain rfl : source' = source := Option.mem_unique hmost' hmost
      obtain rfl : destination' = destination := Option.mem_unique hleast' hleast
      exact ⟨henough, hmove⟩
  · rintro ⟨henough, hmove⟩
    obtain ⟨⟨shard, placement⟩, hshard⟩ := shardToMove_isSome destination hmove.pos
    exact ⟨shard, source, destination, placement.generation, nextRebalance_of_decides
      (.balance hplans hsettled henough hmost hleast hmove hshard)⟩

end Initial

/-- **The planner leaves the initial map alone exactly where the weights allow.** -/
theorem initial_no_transfer_iff {c c' : Catalog} {copies : Nat} (hvalid : c.validate = .ok ())
    (hkeyed : c.Keyed) (hidle : c.Idle) (h : c.initializePlacements copies = .ok c') :
    (∀ shard source destination generation,
      c'.nextRebalance ≠ .ok (.transfer shard source destination generation)) ↔
    ¬(c.EnoughShards ∧ c.Overshoots) := by
  have hpos : ∀ node ∈ c.eligible, 0 < c.capacity node := fun node hnode =>
    capacity_pos_of_eligible (validate_eq_ok_iff.1 hvalid) hkeyed hnode
  obtain ⟨hsome, counts, placements, hplacing, rfl⟩ := initializePlacements_eq_ok hpos h
  rw [← hplacing.transfer_iff hpos hkeyed hidle hsome]
  push Not
  rfl

/-- Two members of these weights, two shards and no placement yet. -/
def unplaced (first second : Nat) : Catalog :=
  .ofMembers .two [(1, ⟨1, 1, "a", .voter, .active, first, none⟩),
    (2, ⟨2, 1, "b", .storage, .active, second, none⟩)] []

theorem initial_no_transfer_iff_even :
    ∃ c', (unplaced 2 3).initializePlacements 2 = .ok c' ∧
      ∀ shard source destination generation,
        c'.nextRebalance ≠ .ok (.transfer shard source destination generation) := by
  have hplanned : ((unplaced 2 3).initializePlacements 2 >>= nextRebalance) = .ok .balanced := by
    decide +kernel
  obtain ⟨c', hinit, -⟩ := bind_eq_ok.1 hplanned
  refine ⟨c', hinit, (initial_no_transfer_iff (by decide +kernel) (keyed_iff.2 (by decide))
    (fun _ hop => absurd hop List.not_mem_nil) hinit).2 fun h => absurd h.2 (by decide +kernel)⟩

/-- Member 2 has ten times the capacity of member 1.  Shard 0 goes to member 1,
    the lowest id among two without a load, and shard 1 to member 2; the planner
    moves shard 0 at once. -/
theorem initial_transfers_tenfold :
    (unplaced 1 10).validate = .ok () ∧ (unplaced 1 10).Keyed ∧ (unplaced 1 10).Idle ∧
    ∃ c', (unplaced 1 10).initializePlacements 1 = .ok c' ∧
      c'.nextRebalance = .ok (.transfer 0 1 2 1) := by
  have hplanned : ((unplaced 1 10).initializePlacements 1 >>= nextRebalance) =
      .ok (.transfer 0 1 2 1) := by decide +kernel
  exact ⟨by decide +kernel, keyed_iff.2 (by decide), fun _ hop => absurd hop List.not_mem_nil,
    bind_eq_ok.1 hplanned⟩

end Shardlite.Cluster.Catalog
