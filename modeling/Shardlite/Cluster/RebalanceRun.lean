/-
  Shardlite.Cluster.RebalanceRun

  The planner's transfers one after the other.  A transfer is taken as a whole, by what it does
  to the primaries; what becomes of the replicas is left open.  Evacuations lower the number of
  primaries on members that are not active, moves for balance lower the potential of the loads,
  so a run of transfers ends; and since no load rises above the highest one, a member that gave
  a primary up for balance is never the receiver again.
-/
import Shardlite.Cluster.Rebalance

namespace Shardlite.Cluster

open Function

/-- A primary that moves from one node to another. -/
structure PrimaryMove where
  shard : ShardId
  source : NodeId
  destination : NodeId
  deriving DecidableEq, Repr

namespace Catalog

/-! ## Primaries -/

variable (c : Catalog)

def primaryOf (shard : ShardId) : Option NodeId :=
  (c.placements.get? shard).map ReplicaSet.primary

def placed : Finset ShardId := c.placements.keys.toFinset

variable {s : ShardId}

section Primaries

variable {c c' : Catalog}

theorem mem_placed : s ∈ c.placed ↔ (c.primaryOf s).isSome = true := by
  rw [placed, List.mem_toFinset, OrdMap.keys, List.mem_map, primaryOf, Option.isSome_map]
  constructor
  · rintro ⟨e, he, rfl⟩
    rw [OrdMap.get?_eq_some_iff.2 he]
    rfl
  · intro h
    obtain ⟨p, hp⟩ := Option.isSome_iff_exists.1 h
    exact ⟨(s, p), OrdMap.get?_eq_some_iff.1 hp, rfl⟩

theorem keys_nodup : c.placements.keys.Nodup := by
  rw [OrdMap.keys, List.Nodup, List.pairwise_map]
  exact c.placements.sorted.imp fun hlt => hlt.ne

theorem size_eq_card : c.placements.size = c.placed.card := by
  rw [placed, List.toFinset_card_of_nodup keys_nodup, OrdMap.keys, List.length_map, OrdMap.size]

theorem count_eq_card (node : NodeId) :
    c.count node = (c.placed.filter fun s => c.primaryOf s = some node).card := by
  have hlist : c.placed.filter (fun s => c.primaryOf s = some node) =
      ((c.placements.entries.filter fun e => e.2.primary = node).map Prod.fst).toFinset := by
    ext s
    simp only [Finset.mem_filter, mem_placed, primaryOf, Option.isSome_map, Option.map_eq_some_iff,
      List.mem_toFinset, List.mem_map, List.mem_filter, decide_eq_true_eq]
    constructor
    · rintro ⟨-, p, hp, hprimary⟩
      exact ⟨(s, p), ⟨OrdMap.get?_eq_some_iff.1 hp, hprimary⟩, rfl⟩
    · rintro ⟨e, ⟨he, hprimary⟩, rfl⟩
      have hget := OrdMap.get?_eq_some_iff.2 he
      exact ⟨by rw [hget]; rfl, e.2, hget, hprimary⟩
  have hnodup : ((c.placements.entries.filter fun e => e.2.primary = node).map Prod.fst).Nodup :=
    keys_nodup.sublist (List.filter_sublist.map Prod.fst)
  rw [hlist, List.toFinset_card_of_nodup hnodup, List.length_map, count, OrdMap.values,
    List.countP_map, ← List.countP_eq_length_filter]
  rfl

end Primaries

/-! ## Transfers -/

/-- The transfer is done: the destination has the shard's primary, the members, the routing and
    the other primaries are as they were. -/
structure Moved (move : PrimaryMove) (c' : Catalog) : Prop where
  members : c'.members = c.members
  routing : c'.routing = c.routing
  idle : c'.budgetHolder = none
  primaries : c'.primaryOf = update c.primaryOf move.shard (some move.destination)

/-- The planner decides for a transfer, and it is carried out. -/
def RebalanceStep (move : PrimaryMove) (c' : Catalog) : Prop :=
  (∃ generation, c.nextRebalance =
    .ok (.transfer move.shard move.source move.destination generation)) ∧ c.Moved move c'

/-- Transfers one after the other, in the order they were made. -/
inductive Rebalances : Catalog → List PrimaryMove → Catalog → Prop where
  | done (c : Catalog) : Rebalances c [] c
  | step {c c' c'' : Catalog} {move : PrimaryMove} {moves : List PrimaryMove}
      (hstep : c.RebalanceStep move c') (hrest : Rebalances c' moves c'') :
      Rebalances c (move :: moves) c''

/-! ## What one transfer does -/

/-- Members are stored under their ids, and none that may receive a primary has weight zero. -/
structure Sound : Prop where
  keyed : c.Keyed
  weights : ∀ node ∈ c.eligible, 0 < c.capacity node

inductive Reason (c : Catalog) (move : PrimaryMove) : Prop where
  | evacuation (hsource : c.NotActive move.source)
  | balance (hsettled : c.stranded = none) (hsource : move.source ∈ c.eligible)
      (hheaviest : Balance.Heaviest c.capacity c.count c.eligible.toFinset move.source)
      (huseful : Balance.Useful c.capacity c.count move.source move.destination)

/-- A transfer as the planner decides for it. -/
structure Planned (move : PrimaryMove) : Prop where
  plans : c.Plans
  source : c.primaryOf move.shard = some move.source
  destination : move.destination ∈ c.eligible
  reason : c.Reason move

variable {node : NodeId}

section Step

variable {c c' : Catalog} {move : PrimaryMove}

theorem WellFormed.sound (hwf : c.WellFormed) (hkeyed : c.Keyed) : c.Sound :=
  ⟨hkeyed, fun _ => capacity_pos_of_eligible hwf hkeyed⟩

theorem Decides.planned (hsound : c.Sound) {generation : Nat}
    (h : c.Decides (.transfer move.shard move.source move.destination generation)) :
    c.Planned move := by
  obtain ⟨shard, source, destination⟩ := move
  cases h with
  | evacuate hplans hstranded hleast =>
    obtain ⟨hget, hnot⟩ := stranded_eq_some hstranded
    obtain ⟨hdest, -⟩ := leastLoaded_spec
      (fun node hnode => hsound.weights node (List.mem_of_mem_filter hnode)) hleast
    exact ⟨hplans, by rw [primaryOf, hget]; rfl, List.mem_of_mem_filter hdest, .evacuation hnot⟩
  | balance hplans hsettled henough hmost hleast huseful hshard =>
    obtain ⟨hsource, hheaviest⟩ := mostLoaded_spec hsound.weights hmost
    obtain ⟨hdest, -⟩ := leastLoaded_spec hsound.weights hleast
    obtain ⟨hget, hprimary⟩ := shardToMove_spec hshard
    exact ⟨hplans, by rw [primaryOf, hget, ← hprimary]; rfl, hdest,
      .balance hsettled hsource hheaviest huseful⟩

theorem Planned.ne (hsound : c.Sound) (h : c.Planned move) : move.source ≠ move.destination := by
  cases h.reason with
  | evacuation hsource =>
    intro heq
    exact not_notActive_of_eligible hsound.keyed h.destination (heq ▸ hsource)
  | balance _ _ _ huseful => exact huseful.ne

namespace Moved

section

variable (h : c.Moved move c')

include h

theorem eligible_eq : c'.eligible = c.eligible := by
  rw [eligible, eligible, h.members]

theorem capacity_eq : c'.capacity = c.capacity := by
  funext node
  rw [capacity, capacity, h.members]

theorem notActive_iff :
    c'.NotActive node ↔ c.NotActive node := by
  rw [NotActive, NotActive, h.members]

theorem sound (hsound : c.Sound) : c'.Sound := by
  constructor
  · intro k m hget
    rw [h.members] at hget
    exact hsound.keyed k m hget
  · rw [h.eligible_eq, h.capacity_eq]
    exact hsound.weights

theorem placed_eq (hplaced : c.primaryOf move.shard = some move.source) :
    c'.placed = c.placed := by
  ext s
  rw [mem_placed, mem_placed, h.primaries, update_apply]
  split_ifs with hs
  · rw [hs, hplaced]
    rfl
  · rfl

theorem plans (hplanned : c.Planned move) : c'.Plans := by
  constructor
  · exact h.idle
  · rw [size_eq_card, h.placed_eq hplanned.source, ← size_eq_card, h.routing]
    exact hplanned.plans.complete
  · rw [h.eligible_eq]
    exact hplanned.plans.eligible

theorem count_eq (hsource : c.primaryOf move.shard = some move.source)
    (hne : move.source ≠ move.destination) :
    c'.count = Balance.move c.count move.source move.destination := by
  have hmem : move.shard ∈ c.placed := by
    rw [mem_placed, hsource]
    rfl
  funext node
  rw [count_eq_card, h.placed_eq hsource, h.primaries]
  by_cases hdest : node = move.destination
  · rw [hdest, Balance.move_to, count_eq_card]
    have hins : c.placed.filter (fun s => update c.primaryOf move.shard
        (some move.destination) s = some move.destination) =
        insert move.shard (c.placed.filter fun s => c.primaryOf s = some move.destination) := by
      ext s
      rw [Finset.mem_filter, Finset.mem_insert, Finset.mem_filter, update_apply]
      split_ifs with hs
      · simp [hs, hmem]
      · simp [hs]
    have hnot : move.shard ∉ c.placed.filter fun s => c.primaryOf s = some move.destination := by
      rw [Finset.mem_filter, hsource, Option.some.injEq]
      exact fun hin => hne hin.2
    rw [hins, Finset.card_insert_of_notMem hnot]
  · by_cases hgive : node = move.source
    · rw [hgive, Balance.move_off hne, count_eq_card]
      have hera : c.placed.filter (fun s => update c.primaryOf move.shard
          (some move.destination) s = some move.source) =
          (c.placed.filter fun s => c.primaryOf s = some move.source).erase move.shard := by
        ext s
        rw [Finset.mem_filter, Finset.mem_erase, Finset.mem_filter, update_apply]
        split_ifs with hs
        · simp [hs, hne.symm]
        · simp [hs]
      have hin : move.shard ∈ c.placed.filter fun s => c.primaryOf s = some move.source :=
        Finset.mem_filter.2 ⟨hmem, hsource⟩
      rw [hera, Finset.card_erase_of_mem hin]
    · rw [Balance.move_other hgive hdest, count_eq_card]
      congr 1
      ext s
      rw [Finset.mem_filter, Finset.mem_filter, update_apply]
      split_ifs with hs
      · rw [hs, hsource, Option.some.injEq, Option.some.injEq]
        simp [Ne.symm hdest, Ne.symm hgive]
      · rfl

theorem stranded_eq_none (hsound : c.Sound)
    (hdest : move.destination ∈ c.eligible) (hsettled : c.stranded = none) :
    c'.stranded = none := by
  rw [Catalog.stranded_eq_none] at hsettled ⊢
  intro s p hget
  rw [h.notActive_iff]
  have hprimary : c'.primaryOf s = some p.primary := by rw [primaryOf, hget]; rfl
  rw [h.primaries, update_apply] at hprimary
  split_ifs at hprimary
  · rw [← Option.some.inj hprimary]
    exact not_notActive_of_eligible hsound.keyed hdest
  · obtain ⟨p', hp', hsame⟩ := Option.map_eq_some_iff.1 hprimary
    rw [← hsame]
    exact hsettled s p' hp'

end

end Moved

/-- **What the planner's transfer leads to.** -/
theorem RebalanceStep.planned (hsound : c.Sound) (h : c.RebalanceStep move c') :
    c.Planned move := by
  obtain ⟨⟨generation, hnext⟩, -⟩ := h
  exact (decides_of_nextRebalance hnext).planned hsound

end Step

/-! ## Transfers end -/

/-- The primaries on members that are not active. -/
def strandedShards : Finset ShardId :=
  c.placed.filter fun s => (c.primaryOf s).any fun node =>
    (c.members.get? node).any (·.state ≠ .active)

def potential : Nat := Balance.potential c.capacity c.count c.eligible.toFinset

/-- The potential that no distribution of the shards exceeds. -/
def maxPotential : Nat :=
  Balance.potential c.capacity (fun _ => c.placed.card) c.eligible.toFinset

/-- Evacuations come first; each may raise the potential, but not above its maximum. -/
def movesLeft : Nat := c.strandedShards.card * (c.maxPotential + 1) + c.potential

section Ends

variable {c c' c'' : Catalog} {move : PrimaryMove} {moves : List PrimaryMove}

theorem potential_le_max : c.potential ≤ c.maxPotential := by
  apply Balance.potential_mono
  intro node
  rw [count_eq_card]
  exact Finset.card_filter_le _ _

theorem mem_strandedShards :
    s ∈ c.strandedShards ↔ ∃ node, c.primaryOf s = some node ∧ c.NotActive node := by
  rw [strandedShards, Finset.mem_filter, mem_placed, Option.any_eq_true]
  simp only [NotActive, Option.any_eq_true, decide_eq_true_eq]
  constructor
  · rintro ⟨-, node, hnode, hm⟩
    exact ⟨node, hnode, hm⟩
  · rintro ⟨node, hnode, hm⟩
    exact ⟨by rw [hnode]; rfl, node, hnode, hm⟩

theorem strandedShards_subset (h : c.Moved move c') (hsound : c.Sound) (hplanned : c.Planned move) :
    c'.strandedShards ⊆ c.strandedShards.erase move.shard := by
  intro s hs
  rw [mem_strandedShards] at hs
  obtain ⟨node, hnode, hnot⟩ := hs
  rw [h.notActive_iff] at hnot
  rw [h.primaries, update_apply] at hnode
  split_ifs at hnode with hshard
  · cases hnode
    exact absurd hnot (not_notActive_of_eligible hsound.keyed hplanned.destination)
  · exact Finset.mem_erase.2 ⟨hshard, mem_strandedShards.2 ⟨node, hnode, hnot⟩⟩

theorem maxPotential_eq (h : c.Moved move c') (hplanned : c.Planned move) :
    c'.maxPotential = c.maxPotential := by
  rw [maxPotential, maxPotential, h.capacity_eq, h.eligible_eq, h.placed_eq hplanned.source]

theorem RebalanceStep.movesLeft_lt (hsound : c.Sound) (h : c.RebalanceStep move c') :
    c'.movesLeft < c.movesLeft := by
  have hplanned := h.planned hsound
  obtain ⟨-, hmoved⟩ := h
  have hsub := strandedShards_subset hmoved hsound hplanned
  rw [movesLeft, movesLeft, maxPotential_eq hmoved hplanned]
  cases hplanned.reason with
  | evacuation hsource =>
    have hmem : move.shard ∈ c.strandedShards :=
      mem_strandedShards.2 ⟨move.source, hplanned.source, hsource⟩
    have hcard := (Finset.card_le_card hsub).trans_lt (Finset.card_erase_lt_of_mem hmem)
    have hmax : c'.potential ≤ c.maxPotential := by
      rw [← maxPotential_eq hmoved hplanned]
      exact potential_le_max
    have hmul : (c'.strandedShards.card + 1) * (c.maxPotential + 1) ≤
        c.strandedShards.card * (c.maxPotential + 1) := Nat.mul_le_mul_right _ hcard
    rw [Nat.add_mul, Nat.one_mul] at hmul
    omega
  | balance hsettled hsource hheaviest huseful =>
    have hpot : c'.potential < c.potential := by
      rw [potential, potential, hmoved.capacity_eq, hmoved.eligible_eq,
        hmoved.count_eq hplanned.source huseful.ne]
      exact Balance.potential_move_lt (fun x hx => hsound.weights x (List.mem_toFinset.1 hx))
        (List.mem_toFinset.2 hsource) (List.mem_toFinset.2 hplanned.destination) huseful
    have hcard := Finset.card_le_card (hsub.trans (Finset.erase_subset _ _))
    have hmul := Nat.mul_le_mul_right (c.maxPotential + 1) hcard
    omega

structure Kept (c c' : Catalog) : Prop where
  sound : c'.Sound
  plans : c'.Plans
  eligible : c'.eligible = c.eligible

theorem Rebalances.kept (hsound : c.Sound) (hplans : c.Plans) (h : c.Rebalances moves c') :
    c.Kept c' := by
  induction h with
  | done c => exact ⟨hsound, hplans, rfl⟩
  | step hstep _ ih =>
    have hplanned := hstep.planned hsound
    have hkept := ih (hstep.2.sound hsound) (hstep.2.plans hplanned)
    exact ⟨hkept.sound, hkept.plans, hkept.eligible.trans hstep.2.eligible_eq⟩

theorem Rebalances.length_le (hsound : c.Sound) (h : c.Rebalances moves c') :
    moves.length ≤ c.movesLeft := by
  induction h with
  | done c => exact Nat.zero_le _
  | step hstep _ ih =>
    have hlt := hstep.movesLeft_lt hsound
    have hle := ih (hstep.2.sound hsound)
    rw [List.length_cons]
    omega

/-! ## Who gave does not get -/

theorem RebalanceStep.settled (hsound : c.Sound) (h : c.RebalanceStep move c')
    (hdone : c.stranded = none) (hnode : Balance.Settled c.capacity c.count c.eligible.toFinset node) :
    node ≠ move.destination ∧ c'.stranded = none ∧
      Balance.Settled c'.capacity c'.count c'.eligible.toFinset node := by
  have hplanned := h.planned hsound
  obtain ⟨-, hmoved⟩ := h
  cases hplanned.reason with
  | evacuation hsource =>
    obtain ⟨p, hget, hprimary⟩ := Option.map_eq_some_iff.1 hplanned.source
    exact absurd (hprimary ▸ hsource) (stranded_eq_none.1 hdone _ p hget)
  | balance _ hsource hheaviest huseful =>
    have hmem := List.mem_toFinset.2 hsource
    refine ⟨hnode.ne_of_useful hmem huseful,
      hmoved.stranded_eq_none hsound hplanned.destination hdone, ?_⟩
    rw [hmoved.capacity_eq, hmoved.eligible_eq, hmoved.count_eq hplanned.source huseful.ne]
    exact hnode.move hheaviest hmem (hsound.weights _ hsource) huseful

theorem Rebalances.settled (hsound : c.Sound) (hdone : c.stranded = none)
    (hnode : Balance.Settled c.capacity c.count c.eligible.toFinset node)
    (h : c.Rebalances moves c') : ∀ move ∈ moves, move.destination ≠ node := by
  induction h with
  | done c => simp
  | step hstep _ ih =>
    obtain ⟨hne, hdone', hnode'⟩ := hstep.settled hsound hdone hnode
    exact List.forall_mem_cons.2 ⟨hne.symm, ih (hstep.2.sound hsound) hdone' hnode'⟩

theorem RebalanceStep.settled_source (hsound : c.Sound) (h : c.RebalanceStep move c')
    (hsource : move.source ∈ c.eligible) :
    c'.stranded = none ∧
      Balance.Settled c'.capacity c'.count c'.eligible.toFinset move.source := by
  have hplanned := h.planned hsound
  obtain ⟨-, hmoved⟩ := h
  cases hplanned.reason with
  | evacuation hnot => exact absurd hnot (not_notActive_of_eligible hsound.keyed hsource)
  | balance hdone _ hheaviest huseful =>
    refine ⟨hmoved.stranded_eq_none hsound hplanned.destination hdone, ?_⟩
    rw [hmoved.capacity_eq, hmoved.eligible_eq, hmoved.count_eq hplanned.source huseful.ne]
    exact Balance.settled_of_gave hheaviest huseful

theorem Rebalances.pairwise (hsound : c.Sound) (h : c.Rebalances moves c') :
    moves.Pairwise fun earlier later =>
      earlier.source ∈ c.eligible → later.destination ≠ earlier.source := by
  induction h with
  | done c => exact .nil
  | step hstep hrest ih =>
    have hsound' := hstep.2.sound hsound
    refine List.pairwise_cons.2 ⟨fun later hlater hsource => ?_, ?_⟩
    · obtain ⟨hdone, hsettled⟩ := hstep.settled_source hsound hsource
      exact hrest.settled hsound' hdone hsettled later hlater
    · rw [← hstep.2.eligible_eq]
      exact ih hsound'

/-! ## The planner run to its end -/

/-- The catalog with the shard's primary moved and nothing else. -/
def movePrimary (c : Catalog) (move : PrimaryMove) : Catalog :=
  match c.placements.get? move.shard with
  | some placement => { c with
      placements := c.placements.insert move.shard { placement with primary := move.destination } }
  | none => c

theorem moved_movePrimary (hidle : c.budgetHolder = none)
    (hplaced : (c.primaryOf move.shard).isSome = true) : c.Moved move (c.movePrimary move) := by
  rw [primaryOf, Option.isSome_map] at hplaced
  obtain ⟨placement, hget⟩ := Option.isSome_iff_exists.1 hplaced
  rw [movePrimary, hget]
  refine ⟨rfl, rfl, hidle, ?_⟩
  funext s
  rw [primaryOf, OrdMap.get?_insert, update_apply]
  split_ifs <;> rfl

/-- The planner has nothing more to move, and every primary is on an active member. -/
structure AtRest (c : Catalog) : Prop where
  decision : c.nextRebalance = .ok .balanced ∨
    ∃ shards members, c.nextRebalance = .ok (.needsSplit shards members)
  active : ∀ s p, c.placements.get? s = some p → ¬ c.NotActive p.primary

/-- Past its checks the planner is at rest, or there is a transfer to make. -/
theorem atRest_or_step (hsound : c.Sound) (hplans : c.Plans) :
    c.AtRest ∨ ∃ move c', c.RebalanceStep move c' := by
  obtain ⟨decision, hdecides⟩ := exists_decides hsound.keyed hplans
  have hnext := nextRebalance_of_decides hdecides
  cases hdecides with
  | waiting hbusy => rw [hplans.idle] at hbusy; cases hbusy
  | needsSplit _ hsettled _ => exact .inl ⟨.inr ⟨_, _, hnext⟩, stranded_eq_none.1 hsettled⟩
  | balanced _ hsettled _ _ _ _ => exact .inl ⟨.inl hnext, stranded_eq_none.1 hsettled⟩
  | @evacuate shard placement destination _ hstranded _ =>
    obtain ⟨hget, -⟩ := stranded_eq_some hstranded
    have hplaced : (c.primaryOf shard).isSome = true := by rw [primaryOf, hget]; rfl
    exact .inr ⟨⟨shard, placement.primary, destination⟩, _, ⟨_, hnext⟩,
      moved_movePrimary hplans.idle hplaced⟩
  | @balance source destination shard placement _ _ _ _ _ _ hshard =>
    obtain ⟨hget, -⟩ := shardToMove_spec hshard
    have hplaced : (c.primaryOf shard).isSome = true := by rw [primaryOf, hget]; rfl
    exact .inr ⟨⟨shard, source, destination⟩, _, ⟨_, hnext⟩,
      moved_movePrimary hplans.idle hplaced⟩

/-- **Rebalancing ends, and without churn.**  There is a bound on the number of transfers; where
    no further one is to be made the planner is at rest; and no member that gave a primary up
    for balance is a later receiver. -/
theorem rebalances_end (hvalid : c.validate = .ok ()) (hkeyed : c.Keyed) (hplans : c.Plans) :
    (∃ bound, ∀ moves c', c.Rebalances moves c' → moves.length ≤ bound) ∧
      (∀ moves c', c.Rebalances moves c' → c'.AtRest ∨ ∃ move c'', c'.RebalanceStep move c'') ∧
      ∀ moves c', c.Rebalances moves c' → moves.Pairwise fun earlier later =>
        earlier.source ∈ c.eligible → later.destination ≠ earlier.source := by
  have hsound := (validate_eq_ok_iff.1 hvalid).sound hkeyed
  refine ⟨⟨c.movesLeft, fun _ _ h => h.length_le hsound⟩, fun _ _ h => ?_,
    fun _ _ h => h.pairwise hsound⟩
  have hkept := h.kept hsound hplans
  exact atRest_or_step hkept.sound hkept.plans

/-- One shard, its only copy on a draining node, and a transfer of it planned. -/
def drainingBusy : Catalog :=
  { ofMembers .one [(1, ⟨1, 1, "a", .voter, .draining, 1, none⟩),
      (2, ⟨2, 1, "b", .storage, .active, 1, none⟩)] [(0, ⟨1, 1, []⟩)] with
    operations := .ofList [(1,
      { id := 1, kind := .transfer, phase := .planned, shard := some 0, source := some 1
        destination := some 2, expectedGeneration := some 1, createdVersion := 1 })]
    nextOperationId := 2 }

/-- The planner waits, and the primary stays where it is. -/
theorem drainingBusy_waits :
    drainingBusy.validate = .ok () ∧ drainingBusy.Keyed ∧
      drainingBusy.placements.size = drainingBusy.routing.shardCount ∧ drainingBusy.eligible ≠ [] ∧
      (¬ ∃ move c', drainingBusy.RebalanceStep move c') ∧
      ∃ s p, drainingBusy.placements.get? s = some p ∧ drainingBusy.NotActive p.primary := by
  have hwaits : drainingBusy.nextRebalance = .ok (.waiting 1) := by decide +kernel
  refine ⟨by decide +kernel, keyed_iff.2 (by decide), by decide, by decide, ?_,
    0, ⟨1, 1, []⟩, by decide, ⟨1, 1, "a", .voter, .draining, 1, none⟩, by decide, by decide⟩
  rintro ⟨move, c', ⟨generation, hnext⟩, -⟩
  rw [hwaits] at hnext
  exact absurd (Except.ok.inj hnext) (by simp)

/-- Three members alike, of which the first has all three shards. -/
theorem rebalances_end_threeShards :
    (∃ bound, ∀ moves c', (threeShards 1 1 1).Rebalances moves c' → moves.length ≤ bound) ∧
      (∀ moves c', (threeShards 1 1 1).Rebalances moves c' →
        c'.AtRest ∨ ∃ move c'', c'.RebalanceStep move c'') ∧
      ∀ moves c', (threeShards 1 1 1).Rebalances moves c' → moves.Pairwise fun earlier later =>
        earlier.source ∈ (threeShards 1 1 1).eligible → later.destination ≠ earlier.source :=
  rebalances_end (by decide +kernel) (keyed_iff.2 (by decide)) ⟨by decide, by decide, by decide⟩

end Ends

end Catalog

end Shardlite.Cluster
