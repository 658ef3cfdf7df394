/-
  Shardlite.Cluster.SplitRun

  One split from its start on: the commands that are proposed one after the other, the catalogs
  that they lead through, and what stands between one and the next.  A catalog of the run is
  the first one with the split's operation in it, and from the commit on with the new shard
  and the grown routing; so a run is determined by the operation and the catalog version.

  Each proposal is checked, and takes one catalog version.
-/
import Shardlite.Cluster.SplitEffect
import Shardlite.Cluster.CatalogValid
import Shardlite.Cluster.CatalogStore

namespace Shardlite.Cluster

open Shard

namespace Catalog

/-! ## A run of one split -/

variable (c : Catalog)

/-- The next value of the catalog: changed, numbered and checked. -/
def proposed (change : Catalog → Except Error Catalog) : Except Error Catalog := do
  let next ← change c
  let version ← okOr (checkedSucc next.version) (.clusterConfig "catalog version space exhausted")
  let next := { next with version }
  next.validate
  return next

theorem proposed_eq_ok {c c' : Catalog} {change : Catalog → Except Error Catalog} :
    c.proposed change = .ok c' ↔
      ∃ next, change c = .ok next ∧ next.version + 1 < u64Size ∧
        c' = { next with version := next.version + 1 } ∧ c'.WellFormed := by
  unfold proposed
  constructor
  · intro h
    obtain ⟨next, hnext, h⟩ := bind_eq_ok.1 h
    obtain ⟨version, hversion, h⟩ := bind_eq_ok.1 h
    obtain ⟨_, hvalid, h⟩ := bind_eq_ok.1 h
    rw [okOr_eq_ok, checkedSucc_eq_some_iff] at hversion
    obtain ⟨hfits, rfl⟩ := hversion
    obtain rfl := Except.ok.inj h
    exact ⟨next, hnext, hfits, rfl, validate_eq_ok_iff.1 hvalid⟩
  · rintro ⟨next, hnext, hfits, rfl, hwf⟩
    exact bind_eq_ok.2 ⟨next, hnext, bind_eq_ok.2 ⟨next.version + 1,
      okOr_eq_ok.2 (checkedSucc_eq_some_iff.2 ⟨hfits, rfl⟩),
      bind_eq_ok.2 ⟨(), validate_eq_ok_iff.2 hwf, rfl⟩⟩⟩

/-- One command of the split after the other. -/
def splitRun (id : Nat) (c : Catalog) : List SplitProgress → Except Error Catalog
  | [] => .ok c
  | progress :: rest => do
    let next ← c.proposed fun c => c.applySplit id progress
    splitRun id next rest

/-- A split can be started here and brought to its end. -/
def CanSplit : Prop :=
  ∃ started commands done, c.proposed (fun c => c.startSplit.map Prod.snd) = .ok started ∧
    splitRun c.nextOperationId started commands = .ok done ∧
    (done.operations.get? c.nextOperationId).map (·.phase) = some .complete

/-! ## When it can -/

/-- The nodes that take part in the next split. -/
def splitNodes (r : LinearV1) : Finset NodeId :=
  match c.placements.get? r.splitSource with
  | some placement => insert placement.primary placement.replicas.toFinset
  | none => ∅

/-- No operation is at work on the bucket, no split is under way, and those that the catalog
    remembers were all aborted; the numbers that a split takes are there. -/
def SplitReady (r : LinearV1) : Prop :=
  (∀ op ∈ c.operations.values, op.kind = .split → op.phase.terminal = true) ∧
  (∀ op ∈ c.operations.values, ¬ op.ActiveOn r.splitSource) ∧
  (∀ e ∈ c.operations.entries, e.1 ≠ c.nextOperationId → e.2.kind = .split →
    e.2.phase = .aborted) ∧
  (0 < c.nextOperationId ∧ c.nextOperationId + 1 < u64Size) ∧
  c.routingEpoch + 1 < u64Size ∧
  c.version + 9 + 2 * (c.splitNodes r).card < u64Size

instance (r : LinearV1) : Decidable (c.SplitReady r) :=
  inferInstanceAs (Decidable (_ ∧ _))

/-! ## Starting -/

/-- The operation of a split as it is planned. -/
def plannedSplit (r r' : LinearV1) (p : ReplicaSet) : CatalogOperation where
  id := c.nextOperationId
  kind := .split
  phase := .planned
  shard := some r.splitSource
  source := some p.primary
  destination := some p.primary
  expectedGeneration := some p.generation
  routingBefore := some (.linearV1 r)
  routingAfter := some (.linearV1 r')
  splitRequiredNodes := insert p.primary p.replicas.toFinset
  createdVersion := c.version

theorem startOperation_iff {c c' : Catalog} {kind : OperationKind} {shard : ShardId}
    {source destination : Option NodeId} {generation : Option Nat} {id : Nat} :
    c.startOperation kind (some shard) source destination generation = .ok (id, c') ↔
      (∀ op ∈ c.operations.values, ¬ op.ActiveOn shard) ∧ c.nextOperationId + 1 < u64Size ∧
      id = c.nextOperationId ∧
      c' = { c.setOperation c.nextOperationId
          { id := c.nextOperationId, kind, phase := .planned, shard := some shard, source, destination,
            expectedGeneration := generation, createdVersion := c.version } with
        nextOperationId := c.nextOperationId + 1 } := by
  have hbusy : (¬ (c.operations.values.any fun op =>
      op.shard = some shard ∧ ¬ op.phase.terminal) = true) ↔
      ∀ op ∈ c.operations.values, ¬ op.ActiveOn shard := by
    simp only [List.any_eq_true, decide_eq_true_eq, not_exists, not_and, CatalogOperation.ActiveOn,
      Bool.not_eq_true, Bool.not_eq_false]
    refine forall₂_congr fun op _ => ⟨fun h hterm hshard => ?_, fun h hshard => ?_⟩
    · exact absurd hterm (by simp [h hshard])
    · by_contra hterm
      exact h (by simpa using hterm) hshard
  unfold startOperation
  constructor
  · intro h
    obtain ⟨_, hfree, h⟩ := bind_eq_ok.1 h
    obtain ⟨next, hnext, h⟩ := bind_eq_ok.1 h
    rw [refuseIf_eq_ok, hbusy] at hfree
    rw [okOr_eq_ok, checkedSucc_eq_some_iff] at hnext
    obtain ⟨hfits, rfl⟩ := hnext
    obtain ⟨rfl, rfl⟩ := Prod.mk.inj (Except.ok.inj h)
    exact ⟨hfree, hfits, rfl, rfl⟩
  · rintro ⟨hfree, hfits, rfl, rfl⟩
    exact bind_eq_ok.2 ⟨(), refuseIf_eq_ok.2 (hbusy.2 hfree), bind_eq_ok.2
      ⟨c.nextOperationId + 1, okOr_eq_ok.2 (checkedSucc_eq_some_iff.2 ⟨hfits, rfl⟩), rfl⟩⟩

/-- An operation is started, and what it plans is written over it. -/
theorem plan_iff {c c' : Catalog} {kind : OperationKind} {shard : ShardId}
    {source destination : Option NodeId} {generation : Option Nat} {id : Nat} {msg : String}
    {plan : CatalogOperation → CatalogOperation} :
    (do let (id, started) ← c.startOperation kind (some shard) source destination generation
        let op ← expect (started.operations.get? id) msg
        return (id, started.setOperation id (plan op))) = .ok (id, c') ↔
      (∀ op ∈ c.operations.values, ¬ op.ActiveOn shard) ∧ c.nextOperationId + 1 < u64Size ∧
      id = c.nextOperationId ∧
      c' = { c.setOperation c.nextOperationId (plan
          { id := c.nextOperationId, kind, phase := .planned, shard := some shard, source, destination,
            expectedGeneration := generation, createdVersion := c.version }) with
        nextOperationId := c.nextOperationId + 1 } := by
  constructor
  · intro h
    obtain ⟨⟨id', started⟩, hstart, h⟩ := bind_eq_ok.1 h
    obtain ⟨op, hop, h⟩ := bind_eq_ok.1 h
    obtain ⟨hfree, hfits, rfl, rfl⟩ := startOperation_iff.1 hstart
    rw [expect_eq_ok] at hop
    cases ((OrdMap.get?_insert ..).trans (if_pos rfl)).symm.trans hop
    obtain ⟨rfl, rfl⟩ := Prod.mk.inj (Except.ok.inj h)
    refine ⟨hfree, hfits, rfl, ?_⟩
    simp only [setOperation, OrdMap.insert_insert]
  · rintro ⟨hfree, hfits, rfl, rfl⟩
    refine bind_eq_ok.2 ⟨_, startOperation_iff.2 ⟨hfree, hfits, rfl, rfl⟩, bind_eq_ok.2
      ⟨_, expect_eq_ok.2 ((OrdMap.get?_insert ..).trans (if_pos rfl)), ?_⟩⟩
    simp only [setOperation, OrdMap.insert_insert]
    rfl

theorem startSplit_iff {c : Catalog} {r r' : LinearV1} {p : ReplicaSet} {id : Nat} {c' : Catalog}
    (hr : c.routing = .linearV1 r) (hgrown : r.grown = .ok r') (hmax : r.shardCount < maxShards)
    (hp : c.placements.get? r.splitSource = some p)
    (hnew : c.placements.contains r.splitDestination = false) :
    c.startSplit = .ok (id, c') ↔
      (∀ op ∈ c.operations.values, op.kind = .split → op.phase.terminal = true) ∧
      (∀ op ∈ c.operations.values, ¬ op.ActiveOn r.splitSource) ∧
      c.nextOperationId + 1 < u64Size ∧ id = c.nextOperationId ∧
      c' = { c.setOperation c.nextOperationId (c.plannedSplit r r' p) with
        nextOperationId := c.nextOperationId + 1 } := by
  have hactive : (¬ (c.operations.values.any fun op =>
      op.kind = .split ∧ ¬ op.phase.terminal) = true) ↔
      ∀ op ∈ c.operations.values, op.kind = .split → op.phase.terminal = true := by
    simp
  unfold startSplit
  simp only [hr]
  constructor
  · intro h
    obtain ⟨_, -, h⟩ := bind_eq_ok.1 h
    obtain ⟨_, hsplits, h⟩ := bind_eq_ok.1 h
    obtain ⟨placement, hplace, h⟩ := bind_eq_ok.1 h
    obtain ⟨_, -, h⟩ := bind_eq_ok.1 h
    obtain ⟨next, hnext, h⟩ := bind_eq_ok.1 h
    cases hp.symm.trans (okOr_eq_ok.1 hplace)
    obtain rfl := Except.ok.inj (hgrown.symm.trans hnext)
    exact ⟨hactive.1 (refuseIf_eq_ok.1 hsplits), plan_iff.1 h⟩
  · rintro ⟨hsplits, hplan⟩
    refine bind_eq_ok.2 ⟨(), refuseIf_eq_ok.2 (not_le.2 hmax), ?_⟩
    refine bind_eq_ok.2 ⟨(), refuseIf_eq_ok.2 (hactive.2 hsplits), ?_⟩
    refine bind_eq_ok.2 ⟨p, okOr_eq_ok.2 hp, ?_⟩
    refine bind_eq_ok.2 ⟨(), refuseIf_eq_ok.2 (by simp [hnew]), ?_⟩
    exact bind_eq_ok.2 ⟨r', hgrown, plan_iff.2 hplan⟩

/-! ## The catalogs of a run -/

/-- The split that comes next: `r` grows to `r'`, and the bucket is placed as `p`. -/
structure NextSplit (r r' : LinearV1) (p : ReplicaSet) : Prop where
  valid : c.WellFormed
  routing : c.routing = .linearV1 r
  room : r.shardCount < maxShards
  grown : r.grown = .ok r'
  placement : c.placements.get? r.splitSource = some p
  fresh : c.placements.contains r.splitDestination = false

theorem WellFormed.exists_nextSplit {c : Catalog} {r : LinearV1} (h : c.WellFormed)
    (hr : c.routing = .linearV1 r) (hall : ∀ s < r.shardCount, c.placements.contains s = true)
    (hmax : r.shardCount < maxShards) : ∃ r' p, c.NextSplit r r' p := by
  obtain ⟨r', hgrown⟩ := LinearV1.exists_grown hmax
  have hsource : r.splitSource < r.shardCount := lt_of_lt_of_le r.split_lt (Nat.le_add_right _ _)
  obtain ⟨p, hp⟩ := Option.isSome_iff_exists.1 (hall _ hsource)
  refine ⟨r', p, h, hr, hmax, hgrown, hp, ?_⟩
  by_contra hfresh
  obtain ⟨q, hq⟩ := Option.isSome_iff_exists.1 (Bool.not_eq_false _ ▸ hfresh)
  have hlt := (validatePlacement_iff.1 (h.placements _ _ hq)).1
  rw [hr] at hlt
  exact absurd hlt (lt_irrefl _)

/-- What the split's operation keeps to, in every phase. -/
structure Follows (r r' : LinearV1) (p : ReplicaSet) (op : CatalogOperation) : Prop where
  id : op.id = c.nextOperationId
  kind : op.kind = .split
  shard : op.shard = some r.splitSource
  source : op.source = some p.primary
  destination : op.destination = some p.primary
  generation : op.expectedGeneration = some p.generation
  routes : op.routingBefore = some (.linearV1 r) ∧ op.routingAfter = some (.linearV1 r')
  required : op.splitRequiredNodes = insert p.primary p.replicas.toFinset
  installed : op.splitInstalledNodes ⊆ op.splitRequiredNodes
  cleaned : op.splitCleanedNodes ⊆ op.splitRequiredNodes
  /-- The last sequence is recorded by the time the nodes install. -/
  final : op.phase = .installing →
    ∃ final durable, op.finalLsn = some final ∧ op.durableLsn = some durable ∧ final ≤ durable
  allInstalled : op.phase.committedSplit = true → op.splitRequiredNodes ⊆ op.splitInstalledNodes
  allCleaned : op.phase = .complete → op.splitRequiredNodes ⊆ op.splitCleanedNodes
  epoch : op.phase.committedSplit = true → c.routingEpoch + 1 < u64Size

def pending (op : CatalogOperation) (version : Nat) : Catalog :=
  { c.setOperation c.nextOperationId op with
    nextOperationId := c.nextOperationId + 1
    version }

def published (r r' : LinearV1) (p : ReplicaSet) (op : CatalogOperation)
    (version : Nat) : Catalog :=
  { c.pending op version with
    placements := c.placements.insert r.splitDestination
      { generation := 1
        primary := p.primary
        replicas := op.splitRequiredNodes.ascending.filter (· ≠ p.primary) }
    routing := .linearV1 r'
    routingEpoch := c.routingEpoch + 1 }

/-- The catalog while the split's operation is `op`. -/
def during (r r' : LinearV1) (p : ReplicaSet) (op : CatalogOperation) (version : Nat) : Catalog :=
  if op.phase.committedSplit then c.published r r' p op version else c.pending op version

section Run

variable {c : Catalog} {r r' : LinearV1} {p : ReplicaSet} {op op' : CatalogOperation} {v : Nat}
variable {d : Catalog}

theorem during_version : (c.during r r' p op v).version = v := by
  unfold during
  split_ifs <;> rfl

theorem during_operation : (c.during r r' p op v).operations.get? c.nextOperationId = some op := by
  have hpending : (c.pending op v).operations.get? c.nextOperationId = some op :=
    (OrdMap.get?_insert ..).trans (if_pos rfl)
  unfold during
  split_ifs
  · exact hpending
  · exact hpending

/-! ### They are in order -/

theorem NextSplit.members (hnext : c.NextSplit r r' p) {node : NodeId}
    (hnode : node ∈ insert p.primary p.replicas.toFinset) : c.members.contains node = true := by
  obtain ⟨-, ⟨m, hm, -⟩, hreplicas⟩ :=
    validatePlacement_iff.1 (hnext.valid.placements _ _ hnext.placement)
  rcases Finset.mem_insert.1 hnode with rfl | hreplica
  · exact Option.isSome_iff_exists.2 ⟨m, hm⟩
  · exact (hreplicas _ (List.mem_toFinset.1 hreplica)).2

/-- The operation is in order in a catalog with these members and the routing of its phase. -/
theorem Follows.splitOk (hop : c.Follows r r' p op) (hnext : c.NextSplit r r' p)
    (hmembers : d.members = c.members)
    (hbefore : op.phase.committedSplit = false → d.routing = .linearV1 r)
    (hafter : op.phase.committedSplit = true → d.routing = .linearV1 r') :
    d.SplitOk op p.primary r r' where
  shard := hop.shard
  source := hop.source
  routes := hop.routes
  grown := hnext.grown
  destination := hop.destination
  generation := by simp [hop.generation]
  owner := by simp [hop.required]
  installed := hop.installed
  cleaned := hop.cleaned
  members node hnode := hmembers ▸ hnext.members (hop.required ▸ hnode)
  before hphase _ := hbefore hphase
  after := hafter
  allInstalled := hop.allInstalled
  allCleaned := hop.allCleaned

theorem SplitReady.alone (hready : c.SplitReady r) (hop : c.Follows r r' p op) (s : ShardId)
    (k : Nat)
    (o : CatalogOperation) (hs : op.ActiveOn s) (ho : c.operations.get? k = some o)
    (hs' : o.ActiveOn s) : k = c.nextOperationId := by
  obtain rfl : r.splitSource = s := Option.mem_unique hop.shard hs.2
  exact absurd hs' (hready.2.1 o (OrdMap.mem_values_of_get? ho))

theorem SplitReady.ids (hready : c.SplitReady r) (hop : c.Follows r r' p op) :
    op.id ≠ 0 ∧ op.id = c.nextOperationId :=
  ⟨hop.id ▸ hready.2.2.2.1.1.ne', hop.id⟩

theorem validateKind_of_splitOk (hkind : op.kind = .split)
    (h : d.SplitOk op p.primary r r') : d.validateKind op = .ok () := by
  unfold validateKind
  simp only [hkind]
  exact validateSplit_iff.2 ⟨_, _, _, h⟩

section

variable (hnext : c.NextSplit r r' p)

include hnext

theorem pending_wellFormed (hready : c.SplitReady r)
    (hop : c.Follows r r' p op) (hphase : op.phase.committedSplit = false) :
    (c.pending op v).WellFormed := by
  have hok : c.SplitOk op p.primary r r' :=
    hop.splitOk hnext rfl (fun _ => hnext.routing) (fun h => absurd (hphase.symm.trans h) (by simp))
  have hset : (c.setOperation c.nextOperationId op).WellFormed :=
    hnext.valid.setOperation (hready.ids hop) (validateKind_of_splitOk hop.kind hok)
      (hready.alone hop)
  exact hset.congr rfl rfl rfl rfl rfl rfl rfl

theorem NextSplit.newPlacement (hop : c.Follows r r' p op) :
    (c.published r r' p op v).validatePlacement r.splitDestination
      { generation := 1
        primary := p.primary
        replicas := op.splitRequiredNodes.ascending.filter (· ≠ p.primary) } = .ok () := by
  obtain ⟨-, hprimary, -⟩ := validatePlacement_iff.1 (hnext.valid.placements _ _ hnext.placement)
  refine validatePlacement_iff.2 ⟨?_, hprimary, fun replica hreplica => ?_⟩
  · show r.shardCount < r'.shardCount
    rw [LinearV1.shardCount_of_grown hnext.grown]
    exact Nat.lt_succ_self _
  · simp only [List.mem_filter, Finset.mem_ascending, decide_eq_true_eq] at hreplica
    exact ⟨hreplica.2, hnext.members (hop.required ▸ hreplica.1)⟩

theorem published_wellFormed (hready : c.SplitReady r)
    (hop : c.Follows r r' p op) (hphase : op.phase.committedSplit = true) :
    (c.published r r' p op v).WellFormed where
  format := hnext.valid.format
  policy := hnext.valid.policy
  members := hnext.valid.members
  voter := hnext.valid.voter
  transition t ht := (validateTransition_congr rfl t).trans (hnext.valid.transition t ht)
  placements s q hq := by
    replace hq : (c.placements.insert r.splitDestination _).get? s = some q := hq
    rw [OrdMap.get?_insert] at hq
    split_ifs at hq with hs
    · cases hq
      exact hs ▸ hnext.newPlacement hop
    · obtain ⟨hlt, hrest⟩ := validatePlacement_iff.1 (hnext.valid.placements s q hq)
      rw [hnext.routing] at hlt
      refine validatePlacement_iff.2 ⟨?_, hrest⟩
      show s < r'.shardCount
      rw [LinearV1.shardCount_of_grown hnext.grown]
      exact Nat.lt_succ_of_lt hlt
  ids k o ho := by
    replace ho : (c.operations.insert c.nextOperationId op).get? k = some o := ho
    rw [OrdMap.get?_insert] at ho
    split_ifs at ho with hk
    · cases ho
      exact hk ▸ hready.ids hop
    · exact hnext.valid.ids k o ho
  kinds k o ho := by
    replace ho : (c.operations.insert c.nextOperationId op).get? k = some o := ho
    rw [OrdMap.get?_insert] at ho
    split_ifs at ho with hk
    · cases ho
      exact validateKind_of_splitOk hop.kind (hop.splitOk hnext rfl
        (fun h => absurd (hphase.symm.trans h) (by simp)) fun _ => rfl)
    · refine validateKind_grow (hnext.valid.kinds k o ho) rfl ?_ fun hkind => ?_
      · show c.routing.shardCount ≤ r'.shardCount
        rw [hnext.routing, LinearV1.shardCount_of_grown hnext.grown]
        exact Nat.le_succ _
      · exact hready.2.2.1 (k, o) (OrdMap.get?_eq_some_iff.1 ho) hk hkind
  exclusive := hnext.valid.exclusive_setOperation (hready.alone hop)

/-- Where a split is ready to run, every catalog of its run passes the check. -/
theorem during_wellFormed (hready : c.SplitReady r)
    (hop : c.Follows r r' p op) : (c.during r r' p op v).WellFormed := by
  unfold during
  split_ifs with hphase
  · exact published_wellFormed hnext hready hop hphase
  · exact pending_wellFormed hnext hready hop (by simpa using hphase)

end

/-! ### One command after the other -/

/-- What a command that succeeds makes of the operation. -/
def SplitMove (op : CatalogOperation) (progress : SplitProgress) (op' : CatalogOperation) : Prop :=
  if progress.isFor op.phase then
    SplitEffect op progress op' ∨
      ∃ reason, progress = .abort reason ∧ op' = { op with phase := .aborted, lastError := some reason }
  else progress.alreadyApplied op.phase = true ∧ op' = op

variable {progress : SplitProgress}

theorem committedSplit_of_effect (h : SplitEffect op progress op')
    (hne : progress ≠ .commit) : op'.phase.committedSplit = op.phase.committedSplit := by
  cases h with
  | commit => exact absurd rfl hne
  | _ hphase => simp [hphase, OperationPhase.committedSplit]

theorem committedSplit_of_mayAbort {phase : OperationPhase} (h : phase.mayAbort = true) :
    phase.committedSplit = false := by
  cases phase <;> simp_all [OperationPhase.mayAbort, OperationPhase.committedSplit]

theorem Follows.early (hop : c.Follows r r' p op) {phase : OperationPhase}
    {snapshot durable : Option Nat}
    {error : Option String} (hphase : phase.committedSplit = false) (hne : phase ≠ .installing) :
    c.Follows r r' p { op with
      phase, snapshotLsn := snapshot, durableLsn := durable, lastError := error } :=
  have hcomplete : phase ≠ .complete := by
    rintro rfl
    exact absurd hphase (by simp [OperationPhase.committedSplit])
  { hop with
    final := fun h => absurd h hne
    allInstalled := fun h => absurd (hphase.symm.trans h) (by simp)
    allCleaned := fun h => absurd h hcomplete
    epoch := fun h => absurd (hphase.symm.trans h) (by simp) }

theorem Follows.effect (hop : c.Follows r r' p op) (h : SplitEffect op progress op')
    (hepoch : progress = .commit → c.routingEpoch + 1 < u64Size) :
    c.Follows r r' p op' := by
  cases h with
  | beginSnapshot | prepare | beginFencing | snapshotReady => exact hop.early rfl (by simp)
  | replay hphase => exact hop.early (by rw [hphase]; rfl) (by simp [hphase])
  | @fenced sequence hphase _ =>
    exact { hop with
      final := fun _ => ⟨sequence, sequence, rfl, rfl, le_rfl⟩
      allInstalled := nofun
      allCleaned := nofun
      epoch := nofun }
  | installed hphase hnode =>
    exact { hop with
      installed := Finset.insert_subset hnode hop.installed
      allInstalled := fun h => (hop.allInstalled h).trans (Finset.subset_insert _ _) }
  | commit _ hall =>
    exact { hop with
      final := nofun
      allInstalled := fun _ => hall
      allCleaned := nofun
      epoch := fun _ => hepoch rfl }
  | beginCleanup hphase =>
    have hcommitted : op.phase.committedSplit = true := by rw [hphase]; rfl
    exact { hop with
      final := nofun
      allInstalled := fun _ => hop.allInstalled hcommitted
      allCleaned := nofun
      epoch := fun _ => hop.epoch hcommitted }
  | cleaned hphase hnode =>
    exact { hop with
      cleaned := Finset.insert_subset hnode hop.cleaned
      allCleaned := fun h => (hop.allCleaned h).trans (Finset.subset_insert _ _) }
  | complete hphase hall =>
    have hcommitted : op.phase.committedSplit = true := by rw [hphase]; rfl
    exact { hop with
      final := nofun
      allInstalled := fun _ => hop.allInstalled hcommitted
      allCleaned := fun _ => hall
      epoch := fun _ => hop.epoch hcommitted }

theorem setOperation_during (hphase : op'.phase.committedSplit = op.phase.committedSplit)
    (hrequired : op'.splitRequiredNodes = op.splitRequiredNodes)
    (hd : d = c.during r r' p op v) :
    { d.setOperation c.nextOperationId op' with version := d.version + 1 } =
      c.during r r' p op' (v + 1) := by
  subst hd
  unfold during
  rw [hphase]
  split_ifs
  · simp only [published, pending, setOperation, OrdMap.insert_insert, hrequired]
  · simp only [pending, setOperation, OrdMap.insert_insert]

/-- The commit leads from the catalog before it to the one after it. -/
theorem withSplit_during (hphase : op.phase = .installing) :
    { (c.during r r' p op v).withSplit c.nextOperationId op p.primary r (.linearV1 r') with
        version := v + 1 } = c.during r r' p { op with phase := .committed } (v + 1) := by
  have hbefore : c.during r r' p op v = c.pending op v := by
    rw [during, hphase]
    rfl
  rw [hbefore]
  show _ = c.published r r' p { op with phase := .committed } (v + 1)
  simp only [withSplit, published, pending, setOperation, OrdMap.insert_insert]

theorem required_of_effect (h : SplitEffect op progress op') :
    op'.splitRequiredNodes = op.splitRequiredNodes := by
  cases h <;> rfl

theorem applySplit_version {d' : Catalog} {id : Nat} (h : d.applySplit id progress = .ok d') :
    d'.version = d.version := by
  obtain ⟨op, -, hstep⟩ := applySplit_iff.1 h
  split_ifs at hstep
  · cases hstep <;> rfl
  · rw [hstep.2]

/-- A command that succeeds during the split leads on in it. -/
theorem during_of_proposed (hop : c.Follows r r' p op)
    (h : (c.during r r' p op v).proposed (fun d => d.applySplit c.nextOperationId progress) = .ok d) :
    ∃ op', SplitMove op progress op' ∧ c.Follows r r' p op' ∧ v + 1 < u64Size ∧
      d = c.during r r' p op' (v + 1) ∧ d.WellFormed := by
  obtain ⟨next, hnext, hfits, rfl, hwf⟩ := proposed_eq_ok.1 h
  have hv : next.version = v := (applySplit_version hnext).trans during_version
  obtain ⟨op₀, hfound, hstep⟩ := applySplit_iff.1 hnext
  cases during_operation.symm.trans hfound
  suffices ∃ op', SplitMove op progress op' ∧ c.Follows r r' p op' ∧
      { next with version := next.version + 1 } = c.during r r' p op' (v + 1) by
    obtain ⟨op', hmove, hop', heq⟩ := this
    exact ⟨op', hmove, hop', hv ▸ hfits, heq, hwf⟩
  unfold SplitMove
  split_ifs at hstep ⊢ with hfor
  · cases hstep with
    | @move _ op' hkind heffect hne =>
      exact ⟨op', .inl heffect, hop.effect heffect (absurd · hne), setOperation_during
        (committedSplit_of_effect heffect hne) (required_of_effect heffect) rfl⟩
    | @commit source owner generation before after placement hcommit hrouting hplace hsame hepoch =>
      obtain rfl : p.primary = owner := Option.mem_unique hop.source hcommit.owner
      obtain rfl : r = before := by
        have := Option.mem_unique hop.routes.1 hcommit.before
        exact Routing.linearV1.inj this
      obtain rfl : .linearV1 r' = after := Option.mem_unique hop.routes.2 hcommit.after
      have heffect : SplitEffect op .commit { op with phase := .committed } :=
        .commit hcommit.phase hcommit.installed
      refine ⟨_, .inl heffect, hop.effect heffect fun _ => ?_, ?_⟩
      · rw [during, hcommit.phase] at hepoch
        exact hepoch
      · rw [hv]
        exact withSplit_during hcommit.phase
    | @abort reason hmay =>
      exact ⟨_, .inr ⟨reason, rfl, rfl⟩, hop.early rfl (by simp),
        setOperation_during (committedSplit_of_mayAbort hmay).symm rfl rfl⟩
  · obtain ⟨happlied, rfl⟩ := hstep
    refine ⟨op, ⟨happlied, rfl⟩, hop, ?_⟩
    rw [hv]
    unfold during
    split_ifs <;> rfl

/-- The commands that lead through the split succeed, where it is ready. -/
theorem proposed_during (hnext : c.NextSplit r r' p) (hready : c.SplitReady r)
    (hop : c.Follows r r' p op) (heffect : SplitEffect op progress op')
    (hv : v + 1 < u64Size) :
    (c.during r r' p op v).proposed (fun d => d.applySplit c.nextOperationId progress) =
        .ok (c.during r r' p op' (v + 1)) ∧ c.Follows r r' p op' := by
  have hop' : c.Follows r r' p op' := hop.effect heffect fun _ => hready.2.2.2.2.1
  have hwf : (c.during r r' p op' (v + 1)).WellFormed := during_wellFormed hnext hready hop'
  refine ⟨?_, hop'⟩
  suffices ∃ next, (c.during r r' p op v).SplitStep c.nextOperationId op progress next ∧
      { next with version := v + 1 } = c.during r r' p op' (v + 1) by
    obtain ⟨next, hstep, heq⟩ := this
    have happly : (c.during r r' p op v).applySplit c.nextOperationId progress = .ok next :=
      applySplit_iff.2 ⟨op, during_operation, by rw [if_pos heffect.isFor]; exact hstep⟩
    have hversion : next.version = v := (applySplit_version happly).trans during_version
    exact proposed_eq_ok.2 ⟨next, happly, by rwa [hversion], by rw [hversion, heq], hwf⟩
  by_cases hne : progress = .commit
  · subst hne
    cases heffect with
    | commit hphase hall =>
      have hbefore : c.during r r' p op v = c.pending op v := by
        rw [during, hphase]
        rfl
      have hrouting : (c.during r r' p op v).routing = .linearV1 r := hbefore ▸ hnext.routing
      have hplace : (c.during r r' p op v).placements.get? r.splitSource = some p :=
        hbefore ▸ hnext.placement
      have hepoch : (c.during r r' p op v).routingEpoch + 1 < u64Size :=
        hbefore ▸ hready.2.2.2.2.1
      exact ⟨_, .commit ⟨hop.kind, hphase, hall, hop.final hphase, hop.shard, hop.source,
        hop.generation, hop.routes.1, hop.routes.2⟩ hrouting hplace ⟨rfl, rfl⟩ hepoch,
        withSplit_during hphase⟩
  · refine ⟨_, .move hop.kind heffect hne, ?_⟩
    have heq := setOperation_during (committedSplit_of_effect heffect hne)
      (required_of_effect heffect) (rfl : c.during r r' p op v = _)
    rwa [during_version] at heq

/-! ### The first catalog -/

theorem follows_planned : c.Follows r r' p (c.plannedSplit r r' p) where
  id := rfl
  kind := rfl
  shard := rfl
  source := rfl
  destination := rfl
  generation := rfl
  routes := ⟨rfl, rfl⟩
  required := rfl
  installed := Finset.empty_subset _
  cleaned := Finset.empty_subset _
  final := nofun
  allInstalled := nofun
  allCleaned := nofun
  epoch := nofun

theorem started_iff (hnext : c.NextSplit r r' p) {started : Catalog} :
    c.proposed (fun c => c.startSplit.map Prod.snd) = .ok started ↔
      (∀ op ∈ c.operations.values, op.kind = .split → op.phase.terminal = true) ∧
      (∀ op ∈ c.operations.values, ¬ op.ActiveOn r.splitSource) ∧
      c.nextOperationId + 1 < u64Size ∧ c.version + 1 < u64Size ∧
      started = c.during r r' p (c.plannedSplit r r' p) (c.version + 1) ∧ started.WellFormed := by
  have hstart := fun id c' => @startSplit_iff c r r' p id c' hnext.routing hnext.grown hnext.room
    hnext.placement hnext.fresh
  rw [proposed_eq_ok]
  constructor
  · rintro ⟨next, h, hfits, rfl, hwf⟩
    cases hsplit : c.startSplit with
    | error e =>
      rw [hsplit] at h
      cases h
    | ok started =>
      rw [hsplit] at h
      obtain rfl := Except.ok.inj h
      obtain ⟨hsplits, hfree, hid, -, heq⟩ := (hstart _ _).1 hsplit
      rw [heq] at hfits hwf ⊢
      exact ⟨hsplits, hfree, hid, hfits, rfl, hwf⟩
  · rintro ⟨hsplits, hfree, hid, hversion, rfl, hwf⟩
    have hsplit := (hstart _ _).2 ⟨hsplits, hfree, hid, rfl, rfl⟩
    exact ⟨_, congrArg (Except.map Prod.snd) hsplit, hversion, rfl, hwf⟩

end Run

end Catalog

end Shardlite.Cluster
