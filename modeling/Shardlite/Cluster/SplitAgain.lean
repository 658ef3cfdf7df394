/-
  Shardlite.Cluster.SplitAgain

  Whether one more split can run from start to end.  Finished operations stay in the
  catalog, and the check compares every split that was committed with the routing of the
  moment; so a split whose routing has been grown away from since is a fault, and the check
  refuses the commit of every split after the first.
-/
import Shardlite.Cluster.SplitRun

namespace Shardlite.Cluster

open Shard

namespace Catalog

/-! ## A split that is ready runs to its end -/

theorem splitRun_append (id : Nat) (c : Catalog) (xs ys : List SplitProgress) :
    splitRun id c (xs ++ ys) = (splitRun id c xs).bind fun d => splitRun id d ys := by
  induction xs generalizing c with
  | nil => rfl
  | cons x xs ih =>
    rw [List.cons_append, splitRun, splitRun]
    cases c.proposed fun c => c.applySplit id x with
    | error e => rfl
    | ok d => exact ih d

/-- Some commands lead from the start of the split to this operation and this version. -/
def Reaches (c : Catalog) (r r' : LinearV1) (p : ReplicaSet) (op : CatalogOperation) (v : Nat) : Prop :=
  c.Follows r r' p op ∧ ∃ commands, splitRun c.nextOperationId
    (c.during r r' p (c.plannedSplit r r' p) (c.version + 1)) commands = .ok (c.during r r' p op v)

variable {progress : SplitProgress}

section Forward

variable {c : Catalog} {r r' : LinearV1} {p : ReplicaSet} {op op' : CatalogOperation} {v : Nat}

theorem Reaches.step (hreach : c.Reaches r r' p op v) (hnext : c.NextSplit r r' p)
    (hready : c.SplitReady r) (heffect : SplitEffect op progress op')
    (hv : v + 1 < u64Size) : c.Reaches r r' p op' (v + 1) := by
  obtain ⟨hop, commands, hrun⟩ := hreach
  obtain ⟨hstep, hop'⟩ := proposed_during hnext hready hop heffect hv
  refine ⟨hop', commands ++ [progress], ?_⟩
  rw [splitRun_append, hrun]
  show (c.during r r' p op v).proposed _ >>= _ = _
  rw [hstep]
  rfl

theorem Reaches.report (hreach : c.Reaches r r' p op v) (hnext : c.NextSplit r r' p)
    (hready : c.SplitReady r) (phase : OperationPhase)
    (report : NodeId → SplitProgress) (reported : CatalogOperation → Finset NodeId)
    (hreport : ∀ op node, op.phase = phase → node ∈ op.splitRequiredNodes →
      ∃ op', SplitEffect op (report node) op' ∧ op'.phase = phase ∧
        reported op' = insert node (reported op))
    (hphase : op.phase = phase) (nodes : Finset NodeId)
    (hnodes : nodes ⊆ insert p.primary p.replicas.toFinset) (hv : v + nodes.card < u64Size) :
    ∃ op', c.Reaches r r' p op' (v + nodes.card) ∧ op'.phase = phase ∧ nodes ⊆ reported op' := by
  induction nodes using Finset.induction_on with
  | empty => exact ⟨op, hreach, hphase, Finset.empty_subset _⟩
  | insert node nodes hnew ih =>
    rw [Finset.card_insert_of_notMem hnew] at hv ⊢
    obtain ⟨hnode, hrest⟩ := Finset.insert_subset_iff.1 hnodes
    obtain ⟨op₁, hreach₁, hphase₁, hdone⟩ := ih hrest (by omega)
    have hrequired : node ∈ op₁.splitRequiredNodes := hreach₁.1.required ▸ hnode
    obtain ⟨op₂, heffect, hphase₂, heq⟩ := hreport op₁ node hphase₁ hrequired
    exact ⟨op₂, hreach₁.step hnext hready heffect (by omega), hphase₂,
      heq ▸ Finset.insert_subset_insert node hdone⟩

theorem canSplit_of_ready (hnext : c.NextSplit r r' p) (hready : c.SplitReady r) : c.CanSplit := by
  have hnodes : c.splitNodes r = insert p.primary p.replicas.toFinset := by
    rw [splitNodes, hnext.placement]
  obtain ⟨hsplits, hfree, -, ⟨-, hid⟩, -, hversion⟩ := id hready
  rw [hnodes] at hversion
  let n := (insert p.primary p.replicas.toFinset : Finset NodeId).card
  replace hversion : c.version + 9 + 2 * n < u64Size := hversion
  have hstarted := (started_iff hnext).2 ⟨hsplits, hfree, hid, by omega, rfl,
    during_wellFormed hnext hready follows_planned⟩
  have h₀ : c.Reaches r r' p (c.plannedSplit r r' p) (c.version + 1) := ⟨follows_planned, [], rfl⟩
  have h₁ := h₀.step hnext hready (.beginSnapshot rfl) (by omega)
  have h₂ := h₁.step hnext hready (@SplitEffect.snapshotReady _ 0 rfl) (by omega)
  have h₃ := h₂.step hnext hready (.prepare rfl) (by omega)
  have h₄ := h₃.step hnext hready (.beginFencing rfl) (by omega)
  have h₅ := h₄.step hnext hready (@SplitEffect.fenced _ 0 rfl le_rfl) (by omega)
  -- every node installs, and the split is committed
  obtain ⟨op₆, h₆, hphase₆, hinstalled⟩ := h₅.report hnext hready .installing .replicaInstalled
    (·.splitInstalledNodes) (fun op node hphase hnode => ⟨_, .installed hphase hnode, hphase, rfl⟩)
    rfl _ subset_rfl (by omega)
  rw [← h₆.1.required] at hinstalled
  have h₇ := h₆.step hnext hready (.commit hphase₆ hinstalled) (by omega)
  have h₈ := h₇.step hnext hready (.beginCleanup rfl) (by omega)
  -- every node cleans up
  obtain ⟨op₉, h₉, hphase₉, hcleaned⟩ := h₈.report hnext hready .cleaning .replicaCleaned
    (·.splitCleanedNodes) (fun op node hphase hnode => ⟨_, .cleaned hphase hnode, hphase, rfl⟩)
    rfl _ subset_rfl (by omega)
  rw [← h₉.1.required] at hcleaned
  obtain ⟨-, commands, hrun⟩ := h₉.step hnext hready (.complete hphase₉ hcleaned) (by omega)
  refine ⟨_, commands, _, hstarted, hrun, ?_⟩
  rw [during_operation]
  rfl

end Forward

/-! ## A split that ran to its end was ready -/

/-- How far the split has come: each command brings it one further at most. -/
def weight (op : CatalogOperation) : Nat :=
  (if op.phase = .aborted then 0 else SplitProgress.rank op.phase) + op.splitInstalledNodes.card +
    op.splitCleanedNodes.card

section Backward

variable {c : Catalog} {r r' : LinearV1} {p : ReplicaSet} {op op' : CatalogOperation} {v : Nat}

theorem weight_of_effect (h : SplitEffect op progress op') :
    weight op' ≤ weight op + 1 := by
  cases h with
  | @installed node hphase _ =>
    have := Finset.card_insert_le node op.splitInstalledNodes
    simp only [weight, hphase]
    omega
  | @cleaned node hphase _ =>
    have := Finset.card_insert_le node op.splitCleanedNodes
    simp only [weight, hphase]
    omega
  | replay | beginSnapshot | snapshotReady | prepare | beginFencing | fenced | commit | beginCleanup
  | complete =>
    simp only [weight, *, reduceCtorEq, if_false, SplitProgress.rank]
    omega

theorem weight_of_move (h : SplitMove op progress op') :
    weight op' ≤ weight op + 1 := by
  unfold SplitMove at h
  split_ifs at h
  · rcases h with heffect | ⟨reason, -, rfl⟩
    · exact weight_of_effect heffect
    · simp only [weight, if_true]
      omega
  · rw [h.2]
    exact Nat.le_succ _

/-- Every catalog of a run is one of the split's, and as many versions have passed as the split
    has come forward, at least. -/
theorem during_of_splitRun {commands : List SplitProgress} {d : Catalog} (hop : c.Follows r r' p op)
    (hv : v < u64Size) (hwf : (c.during r r' p op v).WellFormed)
    (hrun : splitRun c.nextOperationId (c.during r r' p op v) commands = .ok d) :
    ∃ op' v', c.Follows r r' p op' ∧ d = c.during r r' p op' v' ∧ d.WellFormed ∧ v' < u64Size ∧
      weight op' + v ≤ weight op + v' := by
  induction commands generalizing op v with
  | nil =>
    obtain rfl := Except.ok.inj hrun
    exact ⟨op, v, hop, rfl, hwf, hv, le_rfl⟩
  | cons progress rest ih =>
    obtain ⟨d₁, hstep, hrest⟩ := bind_eq_ok.1 hrun
    obtain ⟨op₁, hmove, hop₁, hv₁, rfl, hwf₁⟩ := during_of_proposed hop hstep
    obtain ⟨op', v', hop', hd, hwf', hv', hweight⟩ := ih hop₁ hv₁ hwf₁ hrest
    have := weight_of_move hmove
    exact ⟨op', v', hop', hd, hwf', hv', by omega⟩

/-- From the commit on, the check refuses every other split that ran to its end: its routing
    was the one that has been grown. -/
theorem aborted_of_published (hnext : c.NextSplit r r' p)
    (hwf : (c.published r r' p op v).WellFormed) {k : Nat} {o : CatalogOperation}
    (ho : c.operations.get? k = some o) (hk : k ≠ c.nextOperationId) (hkind : o.kind = .split)
    (hterm : o.phase.terminal = true) : o.phase = .aborted := by
  by_contra hne
  have hcommitted : o.phase.committedSplit = true := by
    cases hphase : o.phase <;> simp_all [OperationPhase.terminal, OperationPhase.committedSplit]
  have hsplit {d : Catalog} (hd : d.validateKind o = .ok ()) :
      ∃ after, o.routingAfter = some (.linearV1 after) ∧ d.routing = .linearV1 after := by
    unfold validateKind at hd
    simp only [hkind] at hd
    obtain ⟨owner, before, after, hok⟩ := validateSplit_iff.1 hd
    exact ⟨after, hok.routes.2, hok.after hcommitted⟩
  have ho' : (c.published r r' p op v).operations.get? k = some o :=
    (OrdMap.get?_insert ..).trans ((if_neg hk).trans ho)
  obtain ⟨after, hafter, hbefore⟩ := hsplit (hnext.valid.kinds k o ho)
  obtain ⟨after', hafter', hnow⟩ := hsplit (hwf.kinds k o ho')
  have hsame : after = after' :=
    Routing.linearV1.inj (Option.mem_unique hafter hafter')
  have hr : r = after := Routing.linearV1.inj (hnext.routing.symm.trans hbefore)
  have hr' : r' = after' := Routing.linearV1.inj hnow
  have hcount := LinearV1.shardCount_of_grown hnext.grown
  rw [hr', ← hsame, ← hr] at hcount
  omega

theorem ready_of_canSplit (hnext : c.NextSplit r r' p) (h : c.CanSplit) : c.SplitReady r := by
  obtain ⟨started, commands, done, hstarted, hrun, hdone⟩ := h
  obtain ⟨hsplits, hfree, hid, hversion, rfl, hwf⟩ := (started_iff hnext).1 hstarted
  obtain ⟨op, v, hop, rfl, hwf', hv, hweight⟩ := during_of_splitRun follows_planned hversion hwf hrun
  rw [during_operation] at hdone
  have hphase : op.phase = .complete := Option.some.inj hdone
  have hcommitted : op.phase.committedSplit = true := by rw [hphase]; rfl
  rw [during, if_pos hcommitted] at hwf'
  have hnodes : c.splitNodes r = op.splitRequiredNodes := by
    rw [splitNodes, hnext.placement, hop.required]
  have hinstalled := Finset.card_le_card (hop.allInstalled hcommitted)
  have hcleaned := Finset.card_le_card (hop.allCleaned hphase)
  have hplanned : weight (c.plannedSplit r r' p) = 0 := rfl
  have hcomplete : weight op = 8 + op.splitInstalledNodes.card + op.splitCleanedNodes.card := by
    rw [weight, hphase]
    rfl
  refine ⟨hsplits, hfree, fun e he hne hkind => ?_, ⟨?_, hid⟩, hop.epoch hcommitted, ?_⟩
  · exact aborted_of_published hnext hwf' (OrdMap.get?_eq_some_iff.2 he) hne hkind
      (hsplits e.2 (List.mem_map.2 ⟨e, he, rfl⟩) hkind)
  · exact Nat.pos_of_ne_zero (hwf.ids _ _ during_operation).1
  · rw [hnodes]
    omega

end Backward

/-- **Repeated splits.**  Where the routing is linear, every shard is placed and there is room for
    one more, a further split can run from its start to its end, each catalog passing the check,
    exactly if no operation stands in its way now and no earlier split ran to its end. -/
theorem canSplit_iff_ready (c : Catalog) (r : LinearV1) (hvalid : c.validate = .ok ())
    (hr : c.routing = .linearV1 r) (hall : ∀ s < r.shardCount, c.placements.contains s = true)
    (hmax : r.shardCount < maxShards) : c.CanSplit ↔ c.SplitReady r := by
  obtain ⟨r', p, hnext⟩ := (validate_eq_ok_iff.1 hvalid).exists_nextSplit hr hall hmax
  exact ⟨ready_of_canSplit hnext, canSplit_of_ready hnext⟩

def oneShard : Catalog :=
  .ofMembers .one [(1, ⟨1, 1, "a", .voter, .active, 1, none⟩)] [(0, ⟨1, 1, []⟩)]

theorem oneShard_canSplit : oneShard.SplitReady .one ∧ oneShard.CanSplit :=
  have hready : oneShard.SplitReady .one := by decide +kernel
  ⟨hready, (canSplit_iff_ready oneShard .one (by decide +kernel) rfl (by decide +kernel)
    (by decide +kernel)).2 hready⟩

def splitOnce : Except Error Catalog := do
  let started ← oneShard.proposed fun c => c.startSplit.map Prod.snd
  splitRun 1 started [.beginSnapshot, .snapshotReady 0, .prepare, .beginFencing, .fenced 0,
    .replicaInstalled 1, .commit, .beginCleanup, .replicaCleaned 1, .complete]

def twoShards : LinearV1 := .two

/-- After the first split, in a cluster of one node, there is no second. -/
theorem splitOnce_cannotSplit :
    ∃ c, splitOnce = .ok c ∧ c.validate = .ok () ∧ c.routing = .linearV1 twoShards ∧
      (∀ s < twoShards.shardCount, c.placements.contains s = true) ∧
      twoShards.shardCount < maxShards ∧ c.operations.values.map (·.phase) = [.complete] ∧
      ¬ c.CanSplit := by
  have hfacts : ∃ c ∈ splitOnce.toOption, c.validate = .ok () ∧ c.routing = .linearV1 twoShards ∧
      (∀ s < twoShards.shardCount, c.placements.contains s = true) ∧
      twoShards.shardCount < maxShards ∧ c.operations.values.map (·.phase) = [.complete] ∧
      ¬ c.SplitReady twoShards := by
    decide +kernel
  obtain ⟨c, hc, hvalid, hr, hall, hmax, hphases, hnot⟩ := hfacts
  obtain ⟨r', p, hnext⟩ := (validate_eq_ok_iff.1 hvalid).exists_nextSplit hr hall hmax
  have hsplit : splitOnce = .ok c := by
    cases h : splitOnce with
    | error e =>
      rw [h] at hc
      exact absurd hc (by simp [Except.toOption])
    | ok d =>
      rw [h] at hc
      exact congrArg Except.ok (Option.some.inj hc)
  exact ⟨c, hsplit, hvalid, hr, hall, hmax, hphases, fun h => hnot (ready_of_canSplit hnext h)⟩

end Catalog

end Shardlite.Cluster
