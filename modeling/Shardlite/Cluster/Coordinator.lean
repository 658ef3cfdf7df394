/-
  Shardlite.Cluster.Coordinator

  How a node plans the shard map when it coordinates, and how it applies a map.
  Applying is not one step: the map is recorded, then the gates held are read,
  then the gates being lost are closed, then the replication loop comes to rest,
  and only then do the gained gates open.  One application runs at a time, and
  one that finds another in flight is skipped.
-/
import Shardlite.Cluster.Fence
import Shardlite.Cluster.Catalog

namespace Shardlite.Cluster

/-- How far an application of a map has come. -/
inductive ApplyStage where
  /-- The map is recorded. -/
  | recorded
  /-- The gates held before it have been read. -/
  | comparing (held : List ShardId)
  /-- Lost gates are closed; the replication loop is coming to rest. -/
  | settling
  deriving DecidableEq

structure Application where
  placement : Placement
  stage : ApplyStage
  deriving DecidableEq

/-- The part of a cluster node that plans and applies shard maps. -/
structure Host where
  node : NodeId
  /-- How many shards a node without a catalog serves. -/
  shards : Nat
  /-- Whether files are handed over between replication and SQLite. -/
  ownership : Bool
  catalog : Option Catalog
  fence : Fence
  placement : Placement := {}
  applying : Option Application := none
  /-- Peers that answered the last round of heartbeats. -/
  live : List NodeId := []
  cordonedMembers : Finset NodeId := ∅
  preferences : OrdMap ShardId NodeId := .empty
  cordoned : Bool := false

namespace Host

variable (h : Host)

/-- The assignment this node would publish as coordinator. -/
def plan (term : Nat) : Placement :=
  match h.catalog with
  | some catalog =>
    { term, assignments := .ofList (catalog.placements.entries.map fun e => (e.1, e.2.primary)) }
  | none =>
    let members := h.live ++ [h.node]
    let eligible := members.filter fun n =>
      n ∉ h.cordonedMembers ∧ ¬ (h.cordoned ∧ n = h.node)
    -- if everyone is cordoned the cordons are ignored
    let members := if eligible.isEmpty then members else eligible
    Placement.withPreferences h.shards members h.preferences term

/-- Begin to apply a map, unless it is the one applied last or another
    application is in flight. -/
def applyPlacement (p : Placement) : Host :=
  if h.applying.isSome then h
  else if h.placement = p then h
  else if h.ownership then
    { h with placement := p, applying := some ⟨p, .recorded⟩ }
  else
    { h with placement := p, fence := h.fence.openFor (p.shardsFor h.node) p.term }

/-- A failed handover forgets the map so that the next heartbeat retries it. -/
def failHandover : Host := { h with placement := {}, applying := none }

/-- Stop writing what the map takes away, keeping the gates it leaves. -/
def closeLost (p : Placement) (held : List ShardId) : Host :=
  let want := p.shardsFor h.node
  if (held.filter (· ∉ want)).isEmpty then h
  else { h with fence := h.fence.openFor (held.filter (· ∈ want)) p.term }

/-- The next step of the application in flight.  `ok` is what the step that can
    fail answers: handing a file to replication, or waiting for it to rest. -/
def resume (ok : Bool) : Host :=
  match h.applying with
  | none => h
  | some ⟨p, .recorded⟩ => { h with applying := some ⟨p, .comparing h.fence.ledShards⟩ }
  | some ⟨p, .comparing held⟩ =>
    let want := p.shardsFor h.node
    let losing := held.filter (· ∉ want)
    let gaining := want.filter (· ∉ held)
    if ¬ losing.isEmpty ∧ ¬ ok then (h.closeLost p held).failHandover
    else if gaining.isEmpty then { h.closeLost p held with applying := none }
    else { h.closeLost p held with applying := some ⟨p, .settling⟩ }
  | some ⟨p, .settling⟩ =>
    if ok then
      { h with fence := h.fence.openFor (p.shardsFor h.node) p.term, applying := none }
    else h.failHandover

/-- The shards whose gates the split supervisor reopens: once the split of a
    shard this node owns is committed, every shard the catalog gives it. -/
def splitReopens : Option (List ShardId) := do
  let catalog ← h.catalog
  let op ← catalog.operations.values.find? fun op => op.kind = .split ∧ ¬ op.phase.terminal
  let owner ← op.source
  if h.node = owner ∧ (op.phase = .committed ∨ op.phase = .cleaning ∨ op.phase = .complete) then
    some ((catalog.placements.entries.filter fun e => e.2.primary = h.node).map Prod.fst)
  else none

/-- The gates of a split tick open in the node's own election term. -/
def splitTick (term : Nat) : Host :=
  match h.splitReopens with
  | some mine => { h with fence := h.fence.openFor mine term }
  | none => h

/-- A restarted node has a fresh gate and no map. -/
def restart : Host :=
  { node := h.node, shards := h.shards, ownership := h.ownership, catalog := h.catalog
    fence := .new h.node 0 }

/-! ## What a host may come to write -/

/-- The gate of `s` is open in `t`, or the application in flight would open it. -/
def Claims (t : Nat) (s : ShardId) : Prop :=
  h.fence.openTerm s = some t ∨
    ∃ a ∈ h.applying, a.placement.term = t ∧ s ∈ a.placement.shardsFor h.node

instance (t : Nat) (s : ShardId) : Decidable (h.Claims t s) :=
  inferInstanceAs (Decidable (_ ∨ ∃ a ∈ h.applying, _))

section Grants

variable {h : Host} {t : Nat} {s : ShardId}
variable {p : Placement}

@[simp] theorem applyPlacement_node (p : Placement) : (h.applyPlacement p).node = h.node := by
  unfold applyPlacement
  split_ifs <;> rfl

@[simp] theorem splitTick_node (term : Nat) : (h.splitTick term).node = h.node := by
  unfold splitTick
  split <;> rfl

/-- Applying a map claims nothing beyond what the map assigns to this node. -/
theorem Claims.of_applyPlacement (hc : (h.applyPlacement p).Claims t s) :
    h.Claims t s ∨ t = p.term ∧ s ∈ p.shardsFor h.node := by
  unfold applyPlacement at hc
  split_ifs at hc with hbusy hsame hown
  · exact .inl hc
  · exact .inl hc
  · rcases hc with hopen | ⟨a, ha, ht, hs⟩
    · exact .inl (.inl hopen)
    · cases ha
      exact .inr ⟨ht.symm, hs⟩
  · rcases hc with hopen | ⟨a, ha, ht, hs⟩
    · exact (Fence.openTerm_openFor_eq_some hopen).imp_left .inl
    · exact .inl (.inr ⟨a, ha, ht, hs⟩)

theorem Claims.of_failHandover (hc : h.failHandover.Claims t s) : h.fence.openTerm s = some t := by
  rcases hc with hopen | ⟨a, ha, -⟩
  · exact hopen
  · cases ha

@[simp] theorem closeLost_node (p : Placement) (held : List ShardId) :
    (h.closeLost p held).node = h.node := by
  simp only [closeLost]
  split_ifs <;> rfl

@[simp] theorem resume_node (ok : Bool) : (h.resume ok).node = h.node := by
  unfold resume
  split
  · rfl
  · rfl
  · simp only
    split_ifs <;> simp [failHandover]
  · split_ifs <;> rfl

@[simp] theorem resume_catalog (ok : Bool) : (h.resume ok).catalog = h.catalog := by
  have hclose : ∀ p held, (h.closeLost p held).catalog = h.catalog := by
    intro p held
    simp only [closeLost]
    split_ifs <;> rfl
  unfold resume
  split
  · rfl
  · rfl
  · simp only
    split_ifs <;> simp [failHandover, hclose]
  · split_ifs <;> rfl

/-- Closing the lost gates re-grants the kept ones, which the map assigns too. -/
theorem openTerm_closeLost {held : List ShardId} {stage : ApplyStage}
    (happ : h.applying = some ⟨p, stage⟩)
    (hopen : (h.closeLost p held).fence.openTerm s = some t) : h.Claims t s := by
  unfold closeLost at hopen
  simp only at hopen
  split_ifs at hopen
  · exact .inl hopen
  · rcases Fence.openTerm_openFor_eq_some hopen with hopen | ⟨rfl, hs⟩
    · exact .inl hopen
    · have hwant : s ∈ p.shardsFor h.node := of_decide_eq_true (List.mem_filter.1 hs).2
      exact .inr ⟨_, happ, rfl, hwant⟩

/-- An application in flight opens only what it claimed from the start. -/
theorem Claims.of_resume {ok : Bool} (hc : (h.resume ok).Claims t s) : h.Claims t s := by
  unfold resume at hc
  split at hc
  · exact hc
  · rename_i p happ
    rcases hc with hopen | ⟨a, ha, ht, hs⟩
    · exact .inl hopen
    · cases ha
      exact .inr ⟨_, happ, ht, hs⟩
  · rename_i p held happ
    have hclaim : (h.closeLost p held).fence.openTerm s = some t → h.Claims t s :=
      openTerm_closeLost happ
    simp only at hc
    split_ifs at hc
    · exact hclaim (Claims.of_failHandover hc)
    · rcases hc with hopen | ⟨a, ha, -⟩
      · exact hclaim hopen
      · cases ha
    · rcases hc with hopen | ⟨a, ha, ht, hs⟩
      · exact hclaim hopen
      · cases ha
        exact .inr ⟨_, happ, ht, closeLost_node (h := h) p held ▸ hs⟩
  · rename_i p happ
    split_ifs at hc
    · rcases hc with hopen | ⟨a, ha, -⟩
      · rcases Fence.openTerm_openFor_eq_some hopen with hopen | ⟨rfl, hs⟩
        · exact .inl hopen
        · exact .inr ⟨_, happ, rfl, hs⟩
      · cases ha
    · exact .inl (Claims.of_failHandover hc)

theorem Claims.of_splitTick {term : Nat} (hc : (h.splitTick term).Claims t s) :
    h.Claims t s ∨ t = term ∧ ∃ mine, h.splitReopens = some mine ∧ s ∈ mine := by
  unfold splitTick at hc
  split at hc
  · rename_i mine hmine
    rcases hc with hopen | hflight
    · rcases Fence.openTerm_openFor_eq_some hopen with hopen | ⟨ht, hs⟩
      · exact .inl (.inl hopen)
      · exact .inr ⟨ht, mine, hmine, hs⟩
    · exact .inl (.inr hflight)
  · exact .inl hc

theorem not_claims_restart : ¬ h.restart.Claims t s := by
  rintro (hopen | ⟨a, ha, -⟩)
  · cases hopen
  · cases ha

end Grants

end Host

end Shardlite.Cluster
