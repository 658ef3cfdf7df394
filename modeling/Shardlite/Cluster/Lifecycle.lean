/-
  Shardlite.Cluster.Lifecycle

  A member's life: it joins as a learner, is made a storage node, may vote, drains, and is
  removed.  These are the commands of the control plane, each of them one proposal; a proposal
  is checked before it is stored, and the check reads the whole catalog, the operations that
  ended long ago with it.

  A member is removed from the map and nothing else is touched.  So the catalog without it is in
  order exactly if nothing that stays behind names it.
-/
import Shardlite.Cluster.Drain
import Shardlite.Cluster.InitialPlacement
import Shardlite.Cluster.Membership

namespace Shardlite.Cluster

open Shard

namespace Catalog

/-! ## Joining -/

/-- The catalog of a new cluster; `current` is what this build stands for. -/
def bootstrap (clusterId : Nat) (firstNode : NodeId) (address : String) (routing : Routing)
    (compatibility current : Compatibility) : Except Error Catalog := do
  compatibility.check current
  let catalog : Catalog :=
    { formatVersion := catalogFormatVersion, clusterId, version := 1, routingEpoch := 1, compatibility
      routing, scalingPolicy := {}
      members := .ofList [(firstNode, ⟨firstNode, 1, address, .voter, .active, 1, none⟩)]
      voterTransition := none, placements := .empty, operations := .empty, nextOperationId := 1 }
  catalog.validate
  return catalog

variable (c : Catalog)

/-- `validate_join`: may this data directory and build become part of the cluster? -/
def validateJoinRequest (localCluster : Option Nat) (compatibility : Compatibility) :
    Except Error Unit := do
  match localCluster with
  | some own =>
    refuseIf (own ≠ c.clusterId)
      (.clusterConfig (s!"data directory belongs to cluster {clusterIdName own}, not " ++
        s!"{clusterIdName c.clusterId}; refusing to join with foreign shard files"))
  | none => pure ()
  c.compatibility.check compatibility

def addLearner (node : NodeId) (incarnation : Nat) (address : String) : Except Error Catalog := do
  -- `address.trim().is_empty()`
  refuseIf (address.toList.all (·.isWhitespace))
    (.clusterConfig "joining node must advertise a non-empty address")
  match c.members.get? node with
  | some existing =>
    if existing.incarnation = incarnation ∧ existing.address = address then return c
    else .error (.clusterConfig
      (s!"node {node} is already registered as incarnation {existing.incarnation} at " ++
        s!"{existing.address}; replace it explicitly rather than reusing its identity"))
  | none =>
    return { c with members :=
      c.members.insert node ⟨node, incarnation, address, .learner, .active, 1, none⟩ }

def promote (node : NodeId) (role : MemberRole) : Except Error Catalog := do
  let member ← okOr (c.members.get? node) (.clusterConfig s!"node {node} is not a member")
  refuseIf (role = .learner) (.clusterConfig "promotion target must be storage or voter")
  return { c with members := c.members.insert node { member with role } }

def setMemberPolicy (node : NodeId) (capacityWeight : Nat)
    (failureDomain : Option String) : Except Error Catalog := do
  refuseIf (capacityWeight = 0) (.clusterConfig "member capacity_weight must be at least one")
  let failureDomain := (failureDomain.map fun domain => domain.trimAscii.toString).filter
    fun domain => !domain.isEmpty
  let member ← okOr (c.members.get? node) (.clusterConfig s!"node {node} is not a member")
  return { c with members := c.members.insert node { member with capacityWeight, failureDomain } }

def startJoin (localCluster : Option Nat) (compatibility : Compatibility)
    (node : NodeId) (incarnation : Nat) (address : String) : Except Error (Nat × Catalog) := do
  c.validateJoinRequest localCluster compatibility
  refuseIf (c.operations.values.any fun op =>
      op.kind = .join ∧ op.destination = some node ∧ ¬ op.phase.terminal)
    (.clusterConfig s!"node {node} already has an active join operation")
  let c ← c.addLearner node incarnation address
  c.startOperation .join none none (some node) none

/-- A join that is only planned starts to catch up. -/
def beginJoinCatchUp (id : Nat) (phase : OperationPhase) : Except Error Catalog :=
  if phase = .planned then c.transition id .join .planned .catchingUp else .ok c

/-- The learner has installed the catalog durably through this version. -/
def recordJoinCatchUp (id version : Nat) : Except Error Catalog := do
  let found ← okOr (c.operations.get? id) (.clusterConfig s!"operation {id} does not exist")
  let c ← c.beginJoinCatchUp id found.phase
  let op ← c.operationIn id .join .catchingUp
  let previous := op.catalogVersion.getD 0
  refuseIf (version < previous)
    (.clusterConfig
      s!"join operation {id} catalog version regressed from {previous} to {version}")
  return c.setOperation id { op with catalogVersion := some version }

def prepareJoin (id : Nat) : Except Error Catalog := do
  let op ← c.operationIn id .join .catchingUp
  let required := saturatingSucc op.createdVersion
  refuseIf (op.catalogVersion.getD 0 < required)
    (.clusterConfig (s!"join operation {id} learner has catalog version " ++
      s!"{op.catalogVersion.getD 0}, short of required version {required}"))
  return c.setOperation id { op with phase := .prepared }

def commitStorageJoin (id : Nat) : Except Error Catalog := do
  let op ← c.operationIn id .join .prepared
  let destination ← expect op.destination "validated join destination"
  let c ← c.promote destination .storage
  return c.setOperation id { op with phase := .committed }

def completeJoin (id : Nat) : Except Error Catalog :=
  c.transition id .join .committed .complete

/-! ## Removal -/

/-- The catalog once the node has left the member map. -/
def withoutMember (node : NodeId) : Catalog :=
  { c with members := c.members.erase node }

/-- A node leaves when it neither votes nor holds a copy. -/
def removeMember (node : NodeId) : Except Error Catalog := do
  let member ← okOr (c.members.get? node) (.clusterConfig s!"node {node} is not a member")
  refuseIf (c.isVoter node)
    (.clusterConfig (s!"node {node} is in the active voter configuration; complete a joint " ++
      "voter change before removal"))
  match c.shardOn node with
  | some (shard, _) =>
    .error (.clusterConfig (s!"node {node} still holds a required copy of {shardName shard}; " ++
      "drain it before removal"))
  | none =>
    refuseIf (member.role = .voter ∧
        (c.members.values.filter (·.role = .voter)).length = 1)
      (.clusterConfig "removal would leave the catalog with no voters")
    return c.withoutMember node

end Catalog

/-! ## The commands of the control plane -/

inductive CatalogCommand where
  | join (localCluster : Option Nat) (compatibility : Compatibility) (node : NodeId)
      (incarnation : Nat) (address : String)
  /-- `consumed` is what the store of join tokens answers. -/
  | joinWithToken (consumed : Except Error Unit) (localCluster : Option Nat)
      (compatibility : Compatibility) (node : NodeId) (incarnation : Nat) (address : String)
  | completeJoin (operation durableCatalogVersion : Nat)
  | rebalance
  | transfer (operation : Nat) (progress : TransferProgress)
  | split (operation : Nat) (progress : SplitProgress)
  | cordon (node : NodeId) (cordoned : Bool)
  | setMemberPolicy (node : NodeId) (capacityWeight : Nat) (failureDomain : Option String)
  | setScalingPolicy (policy : ScalingPolicy)
  | drain (node : NodeId)
  | completeDrain (operation : Nat)
  | remove (node : NodeId)
  | beginVoterChange (voters : Finset NodeId)
  | finalizeVoterChange

variable {m : Member}

namespace Catalog

variable (c : Catalog)

def change : CatalogCommand → Except Error Catalog
  | .join localCluster compatibility node incarnation address =>
    match c.members.get? node with
    | some member => do
      refuseIf (member.incarnation ≠ incarnation ∨ member.address ≠ address)
        (.clusterConfig (s!"node {node} is already registered as incarnation " ++
          s!"{member.incarnation} at {member.address}"))
      return c
    | none => do
      let (_, c) ← c.startJoin localCluster compatibility node incarnation address
      return c
  | .joinWithToken consumed localCluster compatibility node incarnation address => do
    c.validateJoinRequest localCluster compatibility
    match c.members.get? node with
    | some member => do
      refuseIf (member.incarnation ≠ incarnation ∨ member.address ≠ address)
        (.clusterConfig s!"node {node} is already registered as a different member")
      consumed
      return c
    | none => do
      consumed
      let (_, c) ← c.startJoin localCluster compatibility node incarnation address
      return c
  | .completeJoin id durableCatalogVersion => do
    let op ← okOr (c.operations.get? id) (.clusterConfig s!"operation {id} does not exist")
    if op.phase = .complete then return c
    let c ← c.recordJoinCatchUp id durableCatalogVersion
    let c ← c.prepareJoin id
    let c ← c.commitStorageJoin id
    c.completeJoin id
  | .rebalance => do
    let (decision, c) ← c.planNext
    match decision with
    | .needsSplit .. => do
      let (_, c) ← c.startSplit
      return c
    | _ => return c
  | .transfer id progress => c.applyTransfer id progress
  | .split id progress => c.applySplit id progress
  | .cordon node cordoned => c.setMemberState node (if cordoned then .cordoned else .active)
  | .setMemberPolicy node capacityWeight failureDomain =>
    c.setMemberPolicy node capacityWeight failureDomain
  | .setScalingPolicy policy => c.setScalingPolicy policy
  | .drain node =>
    -- a drain that is under way is found again
    if c.operations.values.any fun op =>
        op.kind = .drain ∧ op.source = some node ∧ ¬ op.phase.terminal then return c
    else do
      let (_, c) ← c.startDrain node
      return c
  | .completeDrain id => c.completeDrain id
  | .remove node => do
    refuseIf ((c.members.get? node).any fun member => member.role = .voter)
      (.clusterConfig "remove the node from the voter set before removing membership")
    c.removeMember node
  | .beginVoterChange voters => c.beginVoterChange voters
  | .finalizeVoterChange => c.finalizeVoterChange

/-- The voter change that the command asks for has been made; it is not proposed again. -/
def repeated : CatalogCommand → Bool
  | .beginVoterChange voters => c.voterTransition.any (·.new = voters)
  | .finalizeVoterChange => c.voterTransition.isNone
  | _ => false

/-- A command as the service carries it out: a repeated one is answered again. -/
def control (command : CatalogCommand) : Except Error Catalog :=
  if c.repeated command then .ok c else c.proposed (·.change command)

/-- A command that fails leaves the catalog as it is. -/
def step (command : CatalogCommand) : Catalog :=
  match c.control command with
  | .ok c' => c'
  | .error _ => c

/-! ## Roles -/

/-- During a voter change, whoever has the role of a voter is among the old voters. -/
def VotersByRole : Prop :=
  ∀ t, c.voterTransition = some t → ∀ k m, c.members.get? k = some m → m.role = .voter → k ∈ t.old

/-- No voter is made, and a member that stays keeps its id. -/
structure RolesKept (c c' : Catalog) : Prop where
  transition : c'.voterTransition = c.voterTransition
  members : ∀ k m', c'.members.get? k = some m' →
    (m'.node = k ∧ m'.role ≠ .voter) ∨
      ∃ m, c.members.get? k = some m ∧ m'.node = m.node ∧ (m'.role = .voter → m.role = .voter)

section Roles

variable {c c' c'' : Catalog} {node : NodeId}

theorem RolesKept.of_eq (ht : c'.voterTransition = c.voterTransition)
    (hm : c'.members = c.members) : c.RolesKept c' :=
  ⟨ht, fun _ m' h => .inr ⟨m', hm ▸ h, rfl, id⟩⟩

theorem RolesKept.of_ok (h : (.ok c'' : Except Error Catalog) = .ok c')
    (ht : c''.voterTransition = c.voterTransition := by rfl)
    (hm : c''.members = c.members := by rfl) : c.RolesKept c' :=
  Except.ok.inj h ▸ .of_eq ht hm

theorem RolesKept.trans (h : c.RolesKept c') (h' : c'.RolesKept c'') : c.RolesKept c'' where
  transition := h'.transition.trans h.transition
  members k m'' hm'' := by
    rcases h'.members k m'' hm'' with hnew | ⟨m', hm', hnode', hrole'⟩
    · exact .inl hnew
    · rcases h.members k m' hm' with ⟨hnode, hrole⟩ | ⟨m, hm, hnode, hrole⟩
      · exact .inl ⟨hnode'.trans hnode, fun hvoter => hrole (hrole' hvoter)⟩
      · exact .inr ⟨m, hm, hnode'.trans hnode, fun hvoter => hrole (hrole' hvoter)⟩

/-- One member is written; it is new and no voter, or it was one if it is. -/
theorem RolesKept.insert {m' : Member}
    (h : (m'.node = node ∧ m'.role ≠ .voter) ∨
      ∃ m, c.members.get? node = some m ∧ m'.node = m.node ∧ (m'.role = .voter → m.role = .voter)) :
    c.RolesKept { c with members := c.members.insert node m' } where
  transition := rfl
  members k m'' hm'' := by
    replace hm'' : (c.members.insert node m').get? k = some m'' := hm''
    rw [OrdMap.get?_insert] at hm''
    split_ifs at hm'' with hk
    · cases hm''
      rw [hk]
      exact h
    · exact .inr ⟨m'', hm'', rfl, id⟩

theorem RolesKept.keyed (h : c.RolesKept c') (hkeyed : c.Keyed) : c'.Keyed := by
  intro k m' hm'
  rcases h.members k m' hm' with ⟨hnode, -⟩ | ⟨m, hm, hnode, -⟩
  · exact hnode
  · rw [hnode]
    exact hkeyed k m hm

theorem RolesKept.votersByRole (h : c.RolesKept c') (hvoters : c.VotersByRole) :
    c'.VotersByRole := by
  intro t ht k m' hm' hrole
  rcases h.members k m' hm' with ⟨-, hnot⟩ | ⟨m, hm, -, hkeep⟩
  · exact absurd hrole hnot
  · exact hvoters t (h.transition ▸ ht) k m hm (hkeep hrole)

theorem mem_voterSets_of_role (hkeyed : c.Keyed) (hvoters : c.VotersByRole)
    (hm : c.members.get? node = some m) (hrole : m.role = .voter) : node ∈ c.voterSets.1 := by
  unfold voterSets
  cases ht : c.voterTransition with
  | some t => exact hvoters t ht node m hm hrole
  | none =>
    simp only [List.mem_toFinset, List.mem_map, List.mem_filter, decide_eq_true_eq]
    exact ⟨m, ⟨OrdMap.mem_values_of_get? hm, hrole⟩, hkeyed node m hm⟩

theorem role_ne_voter (hkeyed : c.Keyed) (hvoters : c.VotersByRole)
    (hm : c.members.get? node = some m) (hvote : c.isVoter node = false) : m.role ≠ .voter := by
  intro hrole
  have hold : decide (node ∈ c.voterSets.1) = true :=
    decide_eq_true (mem_voterSets_of_role hkeyed hvoters hm hrole)
  rw [isVoter, hold, Bool.true_or] at hvote
  cases hvote

end Roles

/-! ## What the commands do to the roles -/

variable {address : String} {compatibility : Compatibility} {command : CatalogCommand}

section Change

variable {c c' : Catalog} {node : NodeId} {id : Nat}
variable {kind : OperationKind} {incarnation : Nat}

theorem setOperation_rolesKept (c : Catalog) (id : Nat) (op : CatalogOperation) :
    c.RolesKept (c.setOperation id op) := .of_eq rfl rfl

theorem transition_rolesKept {expected next : OperationPhase}
    (h : c.transition id kind expected next = .ok c') : c.RolesKept c' := by
  obtain ⟨op, -, -, -, rfl⟩ := transition_eq_ok.1 h
  exact setOperation_rolesKept ..

theorem startOperation_rolesKept {source destination : Option NodeId} {generation : Option Nat}
    (h : c.startOperation kind none source destination generation = .ok (id, c')) :
    c.RolesKept c' := by
  obtain ⟨next, -, h⟩ := bind_eq_ok.1 h
  obtain ⟨-, rfl⟩ := Prod.mk.inj (Except.ok.inj h)
  exact .of_eq rfl rfl

theorem setMemberState_rolesKept {state : MemberState} (h : c.setMemberState node state = .ok c') :
    c.RolesKept c' := by
  obtain ⟨m, hm, h⟩ := bind_eq_ok.1 h
  obtain rfl := Except.ok.inj h
  exact .insert (.inr ⟨m, okOr_eq_ok.1 hm, rfl, fun hrole => hrole⟩)

theorem setMemberPolicy_rolesKept {capacityWeight : Nat} {failureDomain : Option String}
    (h : c.setMemberPolicy node capacityWeight failureDomain = .ok c') : c.RolesKept c' := by
  obtain ⟨_, -, h⟩ := bind_eq_ok.1 h
  obtain ⟨m, hm, h⟩ := bind_eq_ok.1 h
  obtain rfl := Except.ok.inj h
  exact .insert (.inr ⟨m, okOr_eq_ok.1 hm, rfl, fun hrole => hrole⟩)

theorem addLearner_rolesKept (h : c.addLearner node incarnation address = .ok c') :
    c.RolesKept c' := by
  obtain ⟨_, -, h⟩ := bind_eq_ok.1 h
  cases hm : c.members.get? node with
  | some existing =>
    simp only [hm] at h
    split_ifs at h
    exact .of_ok h
  | none =>
    simp only [hm] at h
    obtain rfl := Except.ok.inj h
    exact .insert (.inl ⟨rfl, by simp⟩)

theorem startJoin_rolesKept {localCluster : Option Nat}
    (h : c.startJoin localCluster compatibility node incarnation address = .ok (id, c')) :
    c.RolesKept c' := by
  obtain ⟨_, -, h⟩ := bind_eq_ok.1 h
  obtain ⟨_, -, h⟩ := bind_eq_ok.1 h
  obtain ⟨added, hadded, h⟩ := bind_eq_ok.1 h
  exact (addLearner_rolesKept hadded).trans (startOperation_rolesKept h)

theorem startDrain_rolesKept (h : c.startDrain node = .ok (id, c')) : c.RolesKept c' := by
  obtain ⟨_, -, h⟩ := bind_eq_ok.1 h
  obtain ⟨draining, hdraining, h⟩ := bind_eq_ok.1 h
  exact (setMemberState_rolesKept hdraining).trans (startOperation_rolesKept h)

theorem recordJoinCatchUp_rolesKept {version : Nat}
    (h : c.recordJoinCatchUp id version = .ok c') : c.RolesKept c' := by
  simp only [recordJoinCatchUp, bind_eq_ok] at h
  obtain ⟨found, -, c₁, hc₁, op, -, _, -, h⟩ := h
  obtain rfl := Except.ok.inj h
  have hfirst : c.RolesKept c₁ := by
    unfold beginJoinCatchUp at hc₁
    split_ifs at hc₁
    · exact transition_rolesKept hc₁
    · exact .of_ok hc₁
  exact hfirst.trans (setOperation_rolesKept ..)

theorem prepareJoin_rolesKept (h : c.prepareJoin id = .ok c') : c.RolesKept c' := by
  obtain ⟨op, -, h⟩ := bind_eq_ok.1 h
  obtain ⟨_, -, h⟩ := bind_eq_ok.1 h
  exact .of_ok h

/-- A join makes a storage node of its destination, never a voter. -/
theorem commitStorageJoin_rolesKept (h : c.commitStorageJoin id = .ok c') : c.RolesKept c' := by
  obtain ⟨op, -, h⟩ := bind_eq_ok.1 h
  obtain ⟨destination, -, h⟩ := bind_eq_ok.1 h
  obtain ⟨promoted, hpromoted, h⟩ := bind_eq_ok.1 h
  obtain ⟨m, hm, hpromoted⟩ := bind_eq_ok.1 hpromoted
  obtain ⟨_, -, hpromoted⟩ := bind_eq_ok.1 hpromoted
  obtain rfl := Except.ok.inj hpromoted
  obtain rfl := Except.ok.inj h
  have hinsert : c.RolesKept { c with
      members := c.members.insert destination { m with role := .storage } } :=
    .insert (.inr ⟨m, okOr_eq_ok.1 hm, rfl, nofun⟩)
  exact hinsert.trans (setOperation_rolesKept ..)

theorem applyTransfer_rolesKept {progress : TransferProgress}
    (h : c.applyTransfer id progress = .ok c') : c.RolesKept c' := by
  obtain ⟨op, -, hstep⟩ := applyTransfer_iff.1 h
  split_ifs at hstep with hfor
  · cases hstep <;> exact .of_eq rfl rfl
  · obtain ⟨-, rfl⟩ := hstep
    exact .of_eq rfl rfl

theorem applySplit_rolesKept {progress : SplitProgress}
    (h : c.applySplit id progress = .ok c') : c.RolesKept c' := by
  obtain ⟨op, -, hstep⟩ := applySplit_iff.1 h
  split_ifs at hstep with hfor
  · cases hstep <;> exact .of_eq rfl rfl
  · obtain ⟨-, rfl⟩ := hstep
    exact .of_eq rfl rfl

theorem planNext_rolesKept {decision : RebalanceDecision} (h : c.planNext = .ok (decision, c')) :
    c.RolesKept c' := by
  obtain ⟨decision', -, h⟩ := bind_eq_ok.1 h
  cases decision' with
  | transfer shard source destination generation =>
    obtain ⟨⟨n, planned⟩, hstart, h⟩ := bind_eq_ok.1 h
    obtain ⟨-, rfl⟩ := Prod.mk.inj (Except.ok.inj h)
    obtain ⟨placement, -, -, -, rfl⟩ := startTransfer_planned hstart
    exact .of_eq rfl rfl
  | _ =>
    obtain ⟨-, rfl⟩ := Prod.mk.inj (Except.ok.inj h)
    exact .of_eq rfl rfl

theorem completeDrain_rolesKept (h : c.completeDrain id = .ok c') : c.RolesKept c' := by
  obtain ⟨op, -, h⟩ := bind_eq_ok.1 h
  obtain ⟨node, -, h⟩ := bind_eq_ok.1 h
  cases hon : c.shardOn node with
  | some e => simp [hon] at h
  | none =>
    simp only [hon] at h
    exact .of_ok h

theorem removeMember_eq_ok (h : c.removeMember node = .ok c') :
    c.isVoter node = false ∧ c.Free node ∧ c' = c.withoutMember node := by
  obtain ⟨m, -, h⟩ := bind_eq_ok.1 h
  obtain ⟨_, hvoter, h⟩ := bind_eq_ok.1 h
  rw [refuseIf_eq_ok, Bool.not_eq_true] at hvoter
  cases hon : c.shardOn node with
  | some e => simp [hon] at h
  | none =>
    simp only [hon] at h
    obtain ⟨_, -, h⟩ := bind_eq_ok.1 h
    exact ⟨hvoter, shardOn_eq_none.1 hon, (Except.ok.inj h).symm⟩

theorem withoutMember_rolesKept (c : Catalog) (node : NodeId) :
    c.RolesKept (c.withoutMember node) :=
  ⟨rfl, fun _ m hm => .inr ⟨m, OrdMap.get?_of_erase hm, rfl, fun hrole => hrole⟩⟩

theorem change_cases (h : c.change command = .ok c') :
    c.RolesKept c' ∨
      (∃ new, c' = { c with voterTransition := some ⟨c.voterSets.1, new⟩ }) ∨
      ∃ new, c' = { c with
        voterTransition := none, members := c.members.mapValues (Member.settle new) } := by
  cases command with
  | join localCluster compatibility node incarnation address =>
    left
    simp only [change] at h
    cases hm : c.members.get? node with
    | some member =>
      simp only [hm] at h
      obtain ⟨_, -, h⟩ := bind_eq_ok.1 h
      exact .of_ok h
    | none =>
      simp only [hm] at h
      obtain ⟨⟨n, started⟩, hstart, h⟩ := bind_eq_ok.1 h
      obtain rfl := Except.ok.inj h
      exact startJoin_rolesKept hstart
  | joinWithToken consumed localCluster compatibility node incarnation address =>
    left
    obtain ⟨_, -, h⟩ := bind_eq_ok.1 h
    cases hm : c.members.get? node with
    | some member =>
      simp only [hm] at h
      obtain ⟨_, -, h⟩ := bind_eq_ok.1 h
      obtain ⟨_, -, h⟩ := bind_eq_ok.1 h
      exact .of_ok h
    | none =>
      simp only [hm] at h
      obtain ⟨_, -, h⟩ := bind_eq_ok.1 h
      obtain ⟨⟨n, started⟩, hstart, h⟩ := bind_eq_ok.1 h
      obtain rfl := Except.ok.inj h
      exact startJoin_rolesKept hstart
  | completeJoin id version =>
    left
    obtain ⟨op, -, h⟩ := bind_eq_ok.1 h
    split_ifs at h
    · exact .of_ok h
    · obtain ⟨caught, hcaught, h⟩ := bind_eq_ok.1 h
      obtain ⟨prepared, hprepared, h⟩ := bind_eq_ok.1 h
      obtain ⟨committed, hcommitted, h⟩ := bind_eq_ok.1 h
      have hfirst := (recordJoinCatchUp_rolesKept hcaught).trans (prepareJoin_rolesKept hprepared)
      exact (hfirst.trans (commitStorageJoin_rolesKept hcommitted)).trans (transition_rolesKept h)
  | rebalance =>
    left
    obtain ⟨⟨decision, planned⟩, hplan, h⟩ := bind_eq_ok.1 h
    apply (planNext_rolesKept hplan).trans
    cases decision with
    | needsSplit =>
      obtain ⟨⟨n, started⟩, hstart, h⟩ := bind_eq_ok.1 h
      obtain rfl := Except.ok.inj h
      obtain ⟨op, -, -, -, rfl⟩ := startSplit_planned hstart
      exact .of_eq rfl rfl
    | _ =>
      exact .of_ok h
  | transfer id progress => exact .inl (applyTransfer_rolesKept h)
  | split id progress => exact .inl (applySplit_rolesKept h)
  | cordon node cordoned => exact .inl (setMemberState_rolesKept h)
  | setMemberPolicy node weight domain => exact .inl (setMemberPolicy_rolesKept h)
  | setScalingPolicy policy =>
    left
    obtain ⟨_, -, h⟩ := bind_eq_ok.1 h
    exact .of_ok h
  | drain node =>
    left
    simp only [change] at h
    split_ifs at h
    · exact .of_ok h
    · obtain ⟨⟨n, started⟩, hstart, h⟩ := bind_eq_ok.1 h
      obtain rfl := Except.ok.inj h
      exact startDrain_rolesKept hstart
  | completeDrain id => exact .inl (completeDrain_rolesKept h)
  | remove node =>
    left
    obtain ⟨_, -, h⟩ := bind_eq_ok.1 h
    obtain ⟨-, -, rfl⟩ := removeMember_eq_ok h
    exact withoutMember_rolesKept c node
  | beginVoterChange voters =>
    simp only [change, Catalog.beginVoterChange, bind_eq_ok] at h
    obtain ⟨_, -, _, -, _, -, _, -, h⟩ := h
    exact .inr (.inl ⟨voters, (Except.ok.inj h).symm⟩)
  | finalizeVoterChange =>
    obtain ⟨t, -, h⟩ := bind_eq_ok.1 h
    exact .inr (.inr ⟨t.new, (Except.ok.inj h).symm⟩)

end Change

/-! ## Every run -/

structure Managed : Prop where
  wellFormed : c.WellFormed
  keyed : c.Keyed
  voters : c.VotersByRole

section Run

variable {c c' : Catalog} {node : NodeId}

theorem Managed.change (h : c.Managed) (hchange : c.change command = .ok c') :
    c'.Keyed ∧ c'.VotersByRole := by
  rcases change_cases hchange with hkept | ⟨new, rfl⟩ | ⟨new, rfl⟩
  · exact ⟨hkept.keyed h.keyed, hkept.votersByRole h.voters⟩
  · refine ⟨h.keyed, fun t ht k m hm hrole => ?_⟩
    cases ht
    exact mem_voterSets_of_role h.keyed h.voters hm hrole
  · constructor
    · intro k m hm
      replace hm : (c.members.mapValues (Member.settle new)).get? k = some m := hm
      rw [OrdMap.get?_mapValues] at hm
      obtain ⟨old, hold, rfl⟩ := Option.map_eq_some_iff.1 hm
      rw [settle_node]
      exact h.keyed k old hold
    · exact nofun

theorem Managed.step (h : c.Managed) (command : CatalogCommand) : (c.step command).Managed := by
  unfold Catalog.step
  cases hcontrol : c.control command with
  | error e => exact h
  | ok c' =>
    unfold control at hcontrol
    split_ifs at hcontrol
    · obtain rfl := Except.ok.inj hcontrol
      exact h
    · obtain ⟨next, hnext, -, rfl, hwf⟩ := proposed_eq_ok.1 hcontrol
      obtain ⟨hkeyed, hvoters⟩ := h.change hnext
      exact ⟨hwf, hkeyed, hvoters⟩

theorem Managed.run (h : c.Managed) (commands : List CatalogCommand) :
    (Machine.run Catalog.step c commands).Managed :=
  Machine.invariant_run_of_forall Catalog.step (I := Managed) (fun _ command h => h.step command) h
    commands

theorem managed_bootstrap {clusterId : Nat} {firstNode : NodeId} {routing : Routing}
    {current : Compatibility}
    (h : bootstrap clusterId firstNode address routing compatibility current = .ok c) :
    c.Managed ∧ c.operations = .empty := by
  obtain ⟨_, -, h⟩ := bind_eq_ok.1 h
  obtain ⟨_, hvalid, h⟩ := bind_eq_ok.1 h
  obtain rfl := Except.ok.inj h
  refine ⟨⟨validate_eq_ok_iff.1 hvalid, keyed_iff.2 ?_, nofun⟩, rfl⟩
  simp [OrdMap.ofList, OrdMap.insert, OrdMap.insertList, OrdMap.empty]

/-- The first placement map leaves a new catalog in order. -/
theorem Managed.initializePlacements {copies : Nat} (h : c.Managed)
    (hnew : c.operations = .empty) (hinit : c.initializePlacements copies = .ok c') :
    c'.Managed := by
  have hpos : ∀ node ∈ c.eligible, 0 < c.capacity node := fun _ hnode =>
    capacity_pos_of_eligible h.wellFormed h.keyed hnode
  obtain ⟨-, counts, placements, hplacing, rfl⟩ := initializePlacements_eq_ok hpos hinit
  have hnone : ∀ k op, c.operations.get? k ≠ some op := by
    intro k op hop
    rw [hnew] at hop
    cases hop
  refine ⟨{ h.wellFormed with
    placements := fun s p hp => hplacing.validatePlacement h.keyed hp
    kinds := fun k op hop => absurd hop (hnone k op) }, h.keyed, h.voters⟩

/-- **A cluster's catalog is always in order.**  Whatever commands come after its first node has set
    the cluster up, with or without the first placement map, the catalog passes the check, every
    member is under its own id, and in a voter change whoever has the role of a voter is among the
    old voters. -/
theorem bootstrapped_run_managed {clusterId : Nat} {firstNode : NodeId} {routing : Routing}
    {current : Compatibility} {first : Catalog}
    (h : bootstrap clusterId firstNode address routing compatibility current = .ok first)
    (hc : c = first ∨ ∃ copies, first.initializePlacements copies = .ok c)
    (commands : List CatalogCommand) :
    (Machine.run Catalog.step c commands).validate = .ok () ∧
      (Machine.run Catalog.step c commands).Keyed ∧
      (Machine.run Catalog.step c commands).VotersByRole := by
  obtain ⟨hfirst, hnew⟩ := managed_bootstrap h
  have hmanaged : c.Managed := by
    rcases hc with rfl | ⟨copies, hinit⟩
    · exact hfirst
    · exact hfirst.initializePlacements hnew hinit
  have hrun := hmanaged.run commands
  exact ⟨validate_eq_ok_iff.2 hrun.wellFormed, hrun.keyed, hrun.voters⟩

end Run

end Catalog

/-! ## Leaving -/

/-- The check of the operation asks for the node as a member. -/
def CatalogOperation.Names (op : CatalogOperation) (node : NodeId) : Prop :=
  match op.kind with
  | .transfer => op.source = some node ∨ op.destination = some node
  | .split => node ∈ op.splitRequiredNodes
  | .join => op.destination = some node
  | .drain => op.source = some node
  | .remove => False

instance (op : CatalogOperation) (node : NodeId) : Decidable (op.Names node) := by
  unfold CatalogOperation.Names
  split <;> infer_instance

namespace Catalog

section Remove

variable {c c' : Catalog} {node : NodeId}
variable {k : NodeId} {t : VoterTransition}

theorem removeMember_iff (hm : c.members.get? node = some m)
    (hvote : c.isVoter node = false) (hfree : c.Free node) (hrole : m.role ≠ .voter) :
    c.removeMember node = .ok c' ↔ c' = c.withoutMember node := by
  have hok : c.removeMember node = .ok (c.withoutMember node) := by
    refine bind_eq_ok.2 ⟨m, okOr_eq_ok.2 hm, bind_eq_ok.2 ⟨(), ?_, ?_⟩⟩
    · rw [refuseIf_eq_ok, hvote]
      simp
    · rw [shardOn_eq_none.2 hfree]
      exact bind_eq_ok.2 ⟨(), refuseIf_eq_ok.2 fun h => hrole h.1, rfl⟩
  rw [hok]
  exact ⟨fun h => (Except.ok.inj h).symm, fun h => h ▸ rfl⟩

theorem contains_withoutMember :
    (c.withoutMember node).members.contains k = true ↔ k ≠ node ∧ c.members.contains k = true := by
  unfold withoutMember OrdMap.contains
  rw [OrdMap.get?_erase]
  split_ifs with hk
  · simp [hk]
  · simp [hk]

theorem get?_withoutMember (hne : k ≠ node) :
    (c.withoutMember node).members.get? k = c.members.get? k := by
  unfold withoutMember
  rw [OrdMap.get?_erase, if_neg hne]

theorem named_withoutMember {value : Option NodeId} {missing : Error} {unknown : NodeId → Error}
    (h : (do
      let k ← okOr value missing
      refuseIf (¬ c.members.contains k) (unknown k)) = .ok ()) :
    (do
      let k ← okOr value missing
      refuseIf (¬ (c.withoutMember node).members.contains k) (unknown k)) = .ok () ↔
      ¬ value = some node := by
  obtain ⟨k, hk, h⟩ := bind_eq_ok.1 h
  rw [okOr_eq_ok] at hk
  rw [refuseIf_eq_ok, not_not] at h
  rw [hk, Option.some.injEq]
  show refuseIf (¬ (c.withoutMember node).members.contains k) (unknown k) = .ok () ↔ _
  rw [refuseIf_eq_ok, not_not, contains_withoutMember]
  exact and_iff_left h

/-- An operation that was in order stays so exactly if it does not name the node. -/
theorem validateKind_withoutMember {op : CatalogOperation} (h : c.validateKind op = .ok ()) :
    (c.withoutMember node).validateKind op = .ok () ↔ ¬ op.Names node := by
  unfold validateKind at h ⊢
  unfold CatalogOperation.Names
  cases hkind : op.kind with
  | transfer =>
    simp only [hkind] at h ⊢
    obtain ⟨shard, source, destination, hshard, hsource, hdest, hne, hlt, hmem, hmem', hgen⟩ :=
      validateTransfer_iff.1 h
    rw [validateTransfer_iff, hsource, hdest, not_or, Option.some.injEq, Option.some.injEq]
    constructor
    · rintro ⟨_, source', destination', -, hs, hd, -, -, hsource', hdest', -⟩
      cases hs
      cases hd
      exact ⟨(contains_withoutMember.1 hsource').1, (contains_withoutMember.1 hdest').1⟩
    · rintro ⟨hsource', hdest'⟩
      exact ⟨shard, source, destination, hshard, rfl, rfl, hne, hlt,
        contains_withoutMember.2 ⟨hsource', hmem⟩, contains_withoutMember.2 ⟨hdest', hmem'⟩, hgen⟩
  | split =>
    simp only [hkind] at h ⊢
    rw [validateSplit_iff]
    constructor
    · rintro ⟨owner, before, after, hok⟩ hnode
      exact (contains_withoutMember.1 (hok.members node hnode)).1 rfl
    · intro hnot
      obtain ⟨owner, before, after, hok⟩ := validateSplit_iff.1 h
      refine ⟨owner, before, after, { hok with members := fun k hk => ?_ }⟩
      exact contains_withoutMember.2 ⟨fun heq => hnot (heq ▸ hk), hok.members k hk⟩
  | join | drain =>
    simp only [hkind] at h ⊢
    exact named_withoutMember h
  | remove => simp

theorem not_mem_of_isVoter_eq_false (ht : c.voterTransition = some t)
    (hvote : c.isVoter node = false) : node ∉ t.old ∪ t.new := by
  simp only [isVoter, voterSets, ht, Option.any_some, Bool.or_eq_false_iff, decide_eq_false_iff_not]
    at hvote
  rw [Finset.mem_union, not_or]
  exact hvote

theorem validateTransition_withoutMember (hnot : node ∉ t.old ∪ t.new)
    (h : c.validateTransition t = .ok ()) : (c.withoutMember node).validateTransition t = .ok () := by
  unfold validateTransition at h ⊢
  simp only [check_then, forM_eq_ok, Finset.mem_ascending] at h ⊢
  refine ⟨h.1, fun k hk => ?_⟩
  have hne : k ≠ node := fun heq => hnot (heq ▸ hk)
  rw [get?_withoutMember hne]
  exact h.2 k hk

theorem validatePlacement_withoutMember {s : ShardId} {p : ReplicaSet}
    (hfree : p.primary ≠ node ∧ node ∉ p.replicas) (h : c.validatePlacement s p = .ok ()) :
    (c.withoutMember node).validatePlacement s p = .ok () := by
  rw [validatePlacement_iff] at h ⊢
  obtain ⟨hlt, hprimary, hreplicas⟩ := h
  refine ⟨hlt, ?_, fun k hk => ⟨(hreplicas k hk).1, contains_withoutMember.2 ⟨?_, (hreplicas k hk).2⟩⟩⟩
  · rw [get?_withoutMember hfree.1]
    exact hprimary
  · exact fun heq => hfree.2 (heq ▸ hk)

/-- Without a member that has neither vote nor copy, the catalog is in order exactly if no
    operation names it. -/
theorem Managed.withoutMember_iff (h : c.Managed) (hvote : c.isVoter node = false)
    (hfree : c.Free node) :
    (c.withoutMember node).WellFormed ↔ ∀ op ∈ c.operations.values, ¬ op.Names node := by
  constructor
  · intro hwf op hop
    obtain ⟨k, hk⟩ := OrdMap.mem_values.1 hop
    exact (validateKind_withoutMember (h.wellFormed.kinds k op hk)).1 (hwf.kinds k op hk)
  · intro hnames
    have hvoter : ∃ m ∈ (c.withoutMember node).members.values, m.role = .voter := by
      obtain ⟨m, hm, hrole⟩ := h.wellFormed.voter
      obtain ⟨k, hk⟩ := OrdMap.mem_values.1 hm
      have hne : k ≠ node := fun heq =>
        role_ne_voter h.keyed h.voters (heq ▸ hk) hvote hrole
      refine ⟨m, OrdMap.mem_values_of_get? (k := k) ?_, hrole⟩
      rw [get?_withoutMember hne]
      exact hk
    have hmembers : ∀ m ∈ (c.withoutMember node).members.values, validateMember m = .ok () := by
      intro m hm
      obtain ⟨k, hk⟩ := OrdMap.mem_values.1 hm
      exact h.wellFormed.members m (OrdMap.mem_values_of_get? (OrdMap.get?_of_erase hk))
    exact {
      format := h.wellFormed.format
      policy := h.wellFormed.policy
      members := hmembers
      voter := hvoter
      transition := fun t ht => validateTransition_withoutMember
        (not_mem_of_isVoter_eq_false (c := c) ht hvote) (h.wellFormed.transition t ht)
      placements := fun s p hp =>
        validatePlacement_withoutMember (hfree s p hp) (h.wellFormed.placements s p hp)
      ids := h.wellFormed.ids
      kinds := fun k op hk => (validateKind_withoutMember (h.wellFormed.kinds k op hk)).2
        (hnames op (OrdMap.mem_values_of_get? hk))
      exclusive := h.wellFormed.exclusive }

/-- **Who can be removed.**  After every run of commands, a member without a copy and without a
    vote is removed, and leaves a catalog that passes the check, exactly if no operation, of
    those that ended either, names it. -/
theorem removable_iff (hvalid : c.validate = .ok ()) (hkeyed : c.Keyed) (hvoters : c.VotersByRole)
    (commands : List CatalogCommand) {m : Member}
    (hm : (Machine.run step c commands).members.get? node = some m)
    (hfree : (Machine.run step c commands).Free node)
    (hvote : (Machine.run step c commands).isVoter node = false) :
    (∃ c', (Machine.run step c commands).removeMember node = .ok c' ∧ c'.validate = .ok ()) ↔
      ∀ op ∈ (Machine.run step c commands).operations.values, ¬ op.Names node := by
  have hmanaged : (Machine.run step c commands).Managed :=
    Managed.run ⟨validate_eq_ok_iff.1 hvalid, hkeyed, hvoters⟩ commands
  have hrole := role_ne_voter hmanaged.keyed hmanaged.voters hm hvote
  rw [← hmanaged.withoutMember_iff hvote hfree, ← validate_eq_ok_iff]
  constructor
  · rintro ⟨c', hremove, hok⟩
    rw [removeMember_iff hm hvote hfree hrole] at hremove
    exact hremove ▸ hok
  · intro hok
    exact ⟨_, (removeMember_iff hm hvote hfree hrole).2 rfl, hok⟩

/-- The catalog of a cluster of one node, which votes, and of these members. -/
def soloVoter (others : List (NodeId × Member)) : Catalog :=
  .ofMembers .one ((1, ⟨1, 1, "a", .voter, .active, 1, none⟩) :: others) []

/-- A member that is draining without an operation of its own can leave while another one
    drains. -/
theorem removable_iff_draining :
    ∃ c', (Machine.run step (soloVoter [(2, ⟨2, 1, "b", .storage, .draining, 1, none⟩),
        (3, ⟨3, 1, "c", .storage, .active, 1, none⟩)]) [.drain 3, .completeDrain 1]).removeMember 2 =
      .ok c' ∧ c'.validate = .ok () :=
  (removable_iff (by decide +kernel) (keyed_iff.2 (by decide +kernel))
    (fun t ht => absurd ht (by simp [soloVoter, ofMembers])) [.drain 3, .completeDrain 1]
    (m := ⟨2, 1, "b", .storage, .draining, 1, none⟩) (by decide +kernel)
    (shardOn_eq_none.1 (by decide +kernel)) (by decide +kernel)).2 (by decide +kernel)

def joinsAndDrains : List CatalogCommand :=
  [.join none ⟨1, "3.50.0", 4096, "linear-v1", "fnv1a-64"⟩ 2 1 "b", .completeJoin 1 2, .drain 2,
    .completeDrain 2]

/-- All operations have finished, the node is drained and has neither copy nor vote; without it
    the catalog fails the check. -/
theorem joinsAndDrains_stays :
    bootstrap 1 1 "a" (soloVoter []).routing (soloVoter []).compatibility
        (soloVoter []).compatibility = .ok (soloVoter []) ∧
      (soloVoter []).validate = .ok () ∧ (soloVoter []).Keyed ∧ (soloVoter []).VotersByRole ∧
      (∀ op ∈ (Machine.run step (soloVoter []) joinsAndDrains).operations.values,
        op.phase = .complete) ∧
      (Machine.run step (soloVoter []) joinsAndDrains).members.get? 2 =
        some ⟨2, 1, "b", .storage, .draining, 1, none⟩ ∧
      (Machine.run step (soloVoter []) joinsAndDrains).Free 2 ∧
      (Machine.run step (soloVoter []) joinsAndDrains).isVoter 2 = false ∧
      ((Machine.run step (soloVoter []) joinsAndDrains).removeMember 2 >>= validate) =
        .error (.clusterConfig "join operation 1 names missing node 2") :=
  ⟨by decide +kernel, by decide +kernel, keyed_iff.2 (by decide +kernel),
    nofun, by decide +kernel, by decide +kernel,
    shardOn_eq_none.1 (by decide +kernel), by decide +kernel, by decide +kernel⟩

/-- The catalog a new cluster starts with: its one shard is on its first node. -/
def firstPlaced : Catalog :=
  (((soloVoter []).initializePlacements 1).toOption).getD (soloVoter [])

/-- A second node joins, and its first shard is split off. -/
def joinsAndSplits : List CatalogCommand := joinsAndDrains.take 2 ++ [.rebalance]

theorem joinsAndSplits_managed :
    (Machine.run step firstPlaced joinsAndSplits).operations.values.map
        (fun op => (op.kind, op.phase)) = [(.join, .complete), (.split, .planned)] ∧
      (Machine.run step firstPlaced joinsAndSplits).validate = .ok () := by
  have hset : bootstrap 1 1 "a" (soloVoter []).routing (soloVoter []).compatibility
      (soloVoter []).compatibility = .ok (soloVoter []) := by decide +kernel
  have hplaced : (soloVoter []).initializePlacements 1 = .ok firstPlaced := by decide +kernel
  exact ⟨by decide +kernel, (bootstrapped_run_managed hset (.inr ⟨1, hplaced⟩) joinsAndSplits).1⟩

end Remove

end Catalog

end Shardlite.Cluster
