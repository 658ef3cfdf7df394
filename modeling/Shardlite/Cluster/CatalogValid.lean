/-
  Shardlite.Cluster.CatalogValid

  What the check of a catalog accepts, as a property of the catalog.  `validate` walks over
  members, placements and operations and stops at the first fault; `WellFormed` says what
  holds when it finds none, one field for each walk, so that a change to the catalog has to
  be looked at only where it changes something.
-/
import Shardlite.Cluster.CatalogSplit

namespace Shardlite.Cluster

open Shard

/-- An unfinished operation on the shard. -/
def CatalogOperation.ActiveOn (op : CatalogOperation) (shard : ShardId) : Prop :=
  op.phase.terminal = false ∧ op.shard = some shard

instance (op : CatalogOperation) (shard : ShardId) : Decidable (op.ActiveOn shard) :=
  inferInstanceAs (Decidable (_ ∧ _))

/-- The split has been committed, and routing with it. -/
def OperationPhase.committedSplit : OperationPhase → Bool
  | .committed | .cleaning | .complete => true
  | _ => false

theorem forM_eq_ok {α : Type} {f : α → Except Error Unit} {xs : List α} :
    xs.forM f = .ok () ↔ ∀ x ∈ xs, f x = .ok () := by
  induction xs with
  | nil => simp [pure, Except.pure]
  | cons x xs ih =>
    show (f x >>= fun _ => xs.forM f) = .ok () ↔ _
    rw [bind_eq_ok, List.forall_mem_cons]
    constructor
    · rintro ⟨_, hx, hxs⟩
      exact ⟨hx, ih.1 hxs⟩
    · rintro ⟨hx, hxs⟩
      exact ⟨(), hx, ih.2 hxs⟩

theorem check_then {x : Except Error Unit} {f : Unit → Except Error Unit} :
    (x >>= f) = .ok () ↔ x = .ok () ∧ f () = .ok () := by
  rw [bind_eq_ok]
  exact ⟨fun ⟨_, hx, hf⟩ => ⟨hx, hf⟩, fun ⟨hx, hf⟩ => ⟨(), hx, hf⟩⟩

namespace Catalog

structure WellFormed (c : Catalog) : Prop where
  format : c.formatVersion = catalogFormatVersion
  policy : c.scalingPolicy.validate = .ok ()
  members : ∀ m ∈ c.members.values, validateMember m = .ok ()
  voter : ∃ m ∈ c.members.values, m.role = .voter
  transition : ∀ t, c.voterTransition = some t → c.validateTransition t = .ok ()
  placements : ∀ s p, c.placements.get? s = some p → c.validatePlacement s p = .ok ()
  ids : ∀ k op, c.operations.get? k = some op → op.id ≠ 0 ∧ op.id = k
  kinds : ∀ k op, c.operations.get? k = some op → c.validateKind op = .ok ()
  /-- No two operations work on one shard. -/
  exclusive : ∀ k k' op op' s, c.operations.get? k = some op → c.operations.get? k' = some op' →
    op.ActiveOn s → op'.ActiveOn s → k = k'

/-! ## The walk over the operations -/

/-- The shards that are busy once `op` has been looked at. -/
def activeWith (active : List ShardId) (op : CatalogOperation) : List ShardId :=
  match op.shard with
  | some shard => if op.phase.terminal then active else shard :: active
  | none => active

variable {active : List ShardId} {op : CatalogOperation} {s : ShardId} {c : Catalog}

theorem mem_activeWith :
    s ∈ activeWith active op ↔ s ∈ active ∨ op.ActiveOn s := by
  unfold activeWith CatalogOperation.ActiveOn
  cases op.shard with
  | none => simp
  | some shard =>
    cases op.phase.terminal with
    | true => simp
    | false =>
      simp only [Bool.false_eq_true, if_false, List.mem_cons, Option.some.injEq, true_and]
      rw [or_comm, eq_comm (a := s)]

theorem validateOperations_cons {k : Nat} {rest : List (Nat × CatalogOperation)} :
    c.validateOperations active ((k, op) :: rest) = .ok () ↔
      (op.id ≠ 0 ∧ op.id = k) ∧ (∀ s, op.ActiveOn s → s ∉ active) ∧ c.validateKind op = .ok () ∧
        c.validateOperations (activeWith active op) rest = .ok () := by
  have hid : refuseIf (op.id = 0 ∨ op.id ≠ k) (.clusterConfig
      "catalog operation id is zero or does not match its map key") = .ok () ↔
      op.id ≠ 0 ∧ op.id = k := by
    rw [refuseIf_eq_ok, not_or, not_not]
  rw [validateOperations, check_then, ← hid]
  unfold activeWith CatalogOperation.ActiveOn
  cases hshard : op.shard with
  | none =>
    refine ⟨fun ⟨h, hr⟩ => ⟨h, fun s hs => absurd hs.2 (by simp), check_then.1 hr⟩, ?_⟩
    exact fun ⟨h, _, hr⟩ => ⟨h, check_then.2 hr⟩
  | some shard =>
    cases hterm : op.phase.terminal with
    | true =>
      refine ⟨fun ⟨h, hr⟩ => ⟨h, fun s hs => absurd hs.1 (by simp), check_then.1 hr⟩, ?_⟩
      exact fun ⟨h, _, hr⟩ => ⟨h, check_then.2 hr⟩
    | false =>
      by_cases hmem : shard ∈ active
      · refine ⟨fun ⟨_, hr⟩ => ?_, fun ⟨_, hfree, _⟩ => absurd hmem (hfree shard ⟨rfl, rfl⟩)⟩
        simp only [Bool.false_eq_true, if_false, if_pos hmem] at hr
        exact absurd hr (by simp [bind, Except.bind])
      · simp only [Bool.false_eq_true, if_false, if_neg hmem]
        refine ⟨fun ⟨h, hr⟩ => ⟨h, fun s hs => ?_, check_then.1 hr⟩, ?_⟩
        · rw [← Option.some.inj hs.2]
          exact hmem
        · exact fun ⟨h, _, hr⟩ => ⟨h, check_then.2 hr⟩

/-- The walk finds no fault if no operation has one by itself and no shard is worked on by
    two, counting the shards that are busy already. -/
theorem validateOperations_eq_ok {es : List (Nat × CatalogOperation)} :
    c.validateOperations active es = .ok () ↔
      (∀ e ∈ es, (e.2.id ≠ 0 ∧ e.2.id = e.1) ∧ c.validateKind e.2 = .ok ()) ∧
        (∀ e ∈ es, ∀ s, e.2.ActiveOn s → s ∉ active) ∧
        es.Pairwise fun e e' => ∀ s, e.2.ActiveOn s → ¬ e'.2.ActiveOn s := by
  induction es generalizing active with
  | nil => simp [validateOperations]
  | cons e es ih =>
    obtain ⟨k, op⟩ := e
    rw [validateOperations_cons, ih]
    simp only [List.forall_mem_cons, List.pairwise_cons, mem_activeWith, not_or]
    constructor
    · rintro ⟨hid, hfree, hkind, hrest, hbusy, hpair⟩
      exact ⟨⟨⟨hid, hkind⟩, hrest⟩, ⟨hfree, fun e he s hs => (hbusy e he s hs).1⟩,
        fun e he s hop hs => (hbusy e he s hs).2 hop, hpair⟩
    · rintro ⟨⟨⟨hid, hkind⟩, hrest⟩, ⟨hfree, hbusy⟩, hother, hpair⟩
      exact ⟨hid, hfree, hkind, hrest, fun e he s hs => ⟨hbusy e he s hs, fun hop =>
        hother e he s hop hs⟩, hpair⟩

theorem pairwise_entries_iff {m : OrdMap Nat CatalogOperation} :
    (m.entries.Pairwise fun e e' => ∀ s, e.2.ActiveOn s → ¬ e'.2.ActiveOn s) ↔
      ∀ k k' op op' s, m.get? k = some op → m.get? k' = some op' → op.ActiveOn s →
        op'.ActiveOn s → k = k' := by
  constructor
  · intro h k k' op op' s hop hop' hs hs'
    by_contra hne
    have hsym : Std.Symm fun e e' : Nat × CatalogOperation =>
        ∀ s, e.2.ActiveOn s → ¬ e'.2.ActiveOn s := ⟨fun e e' he s hs' hs => he s hs hs'⟩
    exact h.forall (OrdMap.get?_eq_some_iff.1 hop) (OrdMap.get?_eq_some_iff.1 hop')
      (fun heq => hne (congrArg Prod.fst heq)) s hs hs'
  · intro h
    refine m.sorted.imp_of_mem fun {e e'} he he' hlt s hs hs' => ?_
    exact hlt.ne (h e.1 e'.1 e.2 e'.2 s (OrdMap.get?_eq_some_iff.2 he) (OrdMap.get?_eq_some_iff.2 he')
      hs hs')

/-- **The check accepts exactly the well-formed catalogs.** -/
theorem validate_eq_ok_iff : c.validate = .ok () ↔ c.WellFormed := by
  have hvoter : (c.members.values.any fun m => m.role = .voter) = true ↔
      ∃ m ∈ c.members.values, m.role = .voter := by
    simp
  have hcount : c.routing.shardCount ≠ 0 := (Routing.shardCount_pos c.routing).ne'
  -- the last two walks, over the placements and the operations
  have htail : (do
      c.placements.entries.forM fun e => c.validatePlacement e.1 e.2
      c.validateOperations [] c.operations.entries) = .ok () ↔
      (∀ s p, c.placements.get? s = some p → c.validatePlacement s p = .ok ()) ∧
        (∀ k op, c.operations.get? k = some op →
          (op.id ≠ 0 ∧ op.id = k) ∧ c.validateKind op = .ok ()) ∧
        ∀ k k' op op' s, c.operations.get? k = some op → c.operations.get? k' = some op' →
          op.ActiveOn s → op'.ActiveOn s → k = k' := by
    rw [check_then, forM_eq_ok, validateOperations_eq_ok, pairwise_entries_iff,
      c.placements.forall_entries fun s p => c.validatePlacement s p = .ok (),
      c.operations.forall_entries fun k op => (op.id ≠ 0 ∧ op.id = k) ∧ c.validateKind op = .ok ()]
    simp
  unfold validate
  simp only [check_then, refuseIf_eq_ok, not_not, forM_eq_ok, hvoter]
  cases htrans : c.voterTransition with
  | none =>
    simp only [htail]
    constructor
    · rintro ⟨hformat, -, hpolicy, hmembers, hone, hplaces, hops, hexcl⟩
      exact ⟨hformat, hpolicy, hmembers, hone, by simp [htrans], hplaces,
        fun k op hop => (hops k op hop).1, fun k op hop => (hops k op hop).2, hexcl⟩
    · intro h
      exact ⟨h.format, hcount, h.policy, h.members, h.voter, h.placements,
        fun k op hop => ⟨h.ids k op hop, h.kinds k op hop⟩, h.exclusive⟩
  | some t =>
    simp only [check_then, htail]
    constructor
    · rintro ⟨hformat, -, hpolicy, hmembers, hone, ht, hplaces, hops, hexcl⟩
      exact ⟨hformat, hpolicy, hmembers, hone,
        fun t' ht' => Option.mem_unique htrans ht' ▸ ht,
        hplaces, fun k op hop => (hops k op hop).1, fun k op hop => (hops k op hop).2, hexcl⟩
    · intro h
      exact ⟨h.format, hcount, h.policy, h.members, h.voter, h.transition t htrans, h.placements,
        fun k op hop => ⟨h.ids k op hop, h.kinds k op hop⟩, h.exclusive⟩

/-! ## What the check reads -/

section Congr

variable {c c' : Catalog}
variable {id : Nat}

theorem validateTransition_congr (hm : c'.members = c.members) (t : VoterTransition) :
    c'.validateTransition t = c.validateTransition t := by
  unfold validateTransition
  rw [hm]

theorem validateKind_congr (hm : c'.members = c.members) (hr : c'.routing = c.routing)
    (op : CatalogOperation) : c'.validateKind op = c.validateKind op := by
  unfold validateKind validateTransfer validateSplit validateJoin validateDrain
  rw [hm, hr]

theorem validatePlacement_congr (hm : c'.members = c.members) (hr : c'.routing = c.routing)
    (s : ShardId) (p : ReplicaSet) : c'.validatePlacement s p = c.validatePlacement s p := by
  unfold validatePlacement
  rw [hm, hr]

/-- The check does not read the version, the epoch or the next operation id. -/
theorem WellFormed.congr (h : c.WellFormed) (hformat : c'.formatVersion = c.formatVersion)
    (hpolicy : c'.scalingPolicy = c.scalingPolicy) (hm : c'.members = c.members)
    (ht : c'.voterTransition = c.voterTransition) (hr : c'.routing = c.routing)
    (hp : c'.placements = c.placements) (ho : c'.operations = c.operations) : c'.WellFormed where
  format := hformat.trans h.format
  policy := by rw [hpolicy]; exact h.policy
  members := by rw [hm]; exact h.members
  voter := by rw [hm]; exact h.voter
  transition t htrans := by
    rw [validateTransition_congr hm]
    exact h.transition t (ht ▸ htrans)
  placements s p hplace := by
    rw [validatePlacement_congr hm hr]
    exact h.placements s p (hp ▸ hplace)
  ids := by rw [ho]; exact h.ids
  kinds k op hop := by
    rw [validateKind_congr hm hr]
    exact h.kinds k op (ho ▸ hop)
  exclusive := by rw [ho]; exact h.exclusive

/-- Rewriting one operation leaves no two at work on one shard, if none other works on its. -/
theorem WellFormed.exclusive_setOperation (h : c.WellFormed)
    (hfree : ∀ s k op', op.ActiveOn s → c.operations.get? k = some op' → op'.ActiveOn s → k = id)
    (k k' : Nat) (o o' : CatalogOperation) (s : ShardId)
    (ho : (c.setOperation id op).operations.get? k = some o)
    (ho' : (c.setOperation id op).operations.get? k' = some o')
    (hs : o.ActiveOn s) (hs' : o'.ActiveOn s) : k = k' := by
  rw [Catalog.setOperation, OrdMap.get?_insert] at ho ho'
  split_ifs at ho ho' with hk hk' hk'
  · rw [hk, hk']
  · cases ho
    exact hk.trans (hfree s k' o' hs ho' hs').symm
  · cases ho'
    exact (hfree s k o hs' ho hs).trans hk'.symm
  · exact h.exclusive k k' o o' s ho ho' hs hs'

/-- Rewriting one operation, if it is in order and no other works on its shard. -/
theorem WellFormed.setOperation (h : c.WellFormed) (hid : op.id ≠ 0 ∧ op.id = id)
    (hkind : c.validateKind op = .ok ())
    (hfree : ∀ s k op', op.ActiveOn s → c.operations.get? k = some op' → op'.ActiveOn s → k = id) :
    (c.setOperation id op).WellFormed where
  format := h.format
  policy := h.policy
  members := h.members
  voter := h.voter
  transition t htrans := (validateTransition_congr rfl t).trans (h.transition t htrans)
  placements s p hplace := (validatePlacement_congr rfl rfl s p).trans (h.placements s p hplace)
  ids k op' hop := by
    rw [Catalog.setOperation, OrdMap.get?_insert] at hop
    split_ifs at hop with hk
    · cases hop
      exact hk ▸ hid
    · exact h.ids k op' hop
  kinds k op' hop := by
    have hsame : (c.setOperation id op).validateKind op' = c.validateKind op' :=
      validateKind_congr rfl rfl op'
    rw [hsame]
    rw [Catalog.setOperation, OrdMap.get?_insert] at hop
    split_ifs at hop with hk
    · cases hop
      exact hkind
    · exact h.kinds k op' hop
  exclusive := h.exclusive_setOperation hfree

end Congr

/-! ## Splits -/

/-- What the check wants of a split from `before` to `after`. -/
structure SplitOk (c : Catalog) (op : CatalogOperation) (owner : NodeId) (before after : LinearV1) :
    Prop where
  shard : op.shard = some before.splitSource
  source : op.source = some owner
  routes : op.routingBefore = some (.linearV1 before) ∧ op.routingAfter = some (.linearV1 after)
  grown : before.grown = .ok after
  destination : op.destination = some owner
  generation : op.expectedGeneration ≠ none
  owner : owner ∈ op.splitRequiredNodes
  installed : op.splitInstalledNodes ⊆ op.splitRequiredNodes
  cleaned : op.splitCleanedNodes ⊆ op.splitRequiredNodes
  members : ∀ node ∈ op.splitRequiredNodes, c.members.contains node = true
  /-- The routing of the catalog is the one before the split, and after its commit the one
      after it. -/
  before : op.phase.committedSplit = false → op.phase ≠ .aborted → c.routing = .linearV1 before
  after : op.phase.committedSplit = true → c.routing = .linearV1 after
  allInstalled : op.phase.committedSplit = true → op.splitRequiredNodes ⊆ op.splitInstalledNodes
  allCleaned : op.phase = .complete → op.splitRequiredNodes ⊆ op.splitCleanedNodes

theorem splitRoutings_eq_some {before after : LinearV1} :
    splitRoutings op = some (before, after) ↔
      op.routingBefore = some (.linearV1 before) ∧ op.routingAfter = some (.linearV1 after) := by
  unfold splitRoutings
  split
  · next b a hb ha =>
      rw [hb, ha]
      simp
  · next hnot =>
      refine ⟨nofun, fun ⟨hb, ha⟩ => absurd ha (hnot before after hb)⟩

theorem committedSplit_iff {phase : OperationPhase} :
    (phase = .committed ∨ phase = .cleaning ∨ phase = .complete) ↔ phase.committedSplit = true := by
  cases phase <;> simp [OperationPhase.committedSplit]

theorem validateSplit_iff :
    c.validateSplit op = .ok () ↔ ∃ owner before after, c.SplitOk op owner before after := by
  unfold validateSplit
  constructor
  · intro h
    obtain ⟨source, hshard, h⟩ := bind_eq_ok.1 h
    obtain ⟨owner, hsource, h⟩ := bind_eq_ok.1 h
    obtain ⟨⟨before, after⟩, hroutes, h⟩ := bind_eq_ok.1 h
    obtain ⟨_, hsame, h⟩ := bind_eq_ok.1 h
    obtain ⟨grown, hgrown, h⟩ := bind_eq_ok.1 h
    simp only [check_then, refuseIf_eq_ok, not_or, not_and, not_not, committedSplit_iff, forM_eq_ok,
      Finset.mem_ascending] at h
    rw [okOr_eq_ok] at hshard hsource hroutes
    rw [refuseIf_eq_ok, not_not] at hsame
    obtain ⟨⟨rfl, hdest, hgen, howner, hin, -, hinst, hclean⟩, hmembers, hafter, hall, hdone,
      hbefore⟩ := h
    refine ⟨owner, before, grown, ?_⟩
    exact ⟨hsame ▸ hshard, hsource, splitRoutings_eq_some.1 hroutes, hgrown, hdest, hgen, hin, hinst,
      hclean, hmembers, fun hc ha => hbefore (by simp [hc]) ha, hafter, hall, hdone⟩
  · rintro ⟨owner, before, after, h⟩
    refine bind_eq_ok.2 ⟨_, okOr_eq_ok.2 h.shard, ?_⟩
    refine bind_eq_ok.2 ⟨_, okOr_eq_ok.2 h.source, ?_⟩
    refine bind_eq_ok.2 ⟨_, okOr_eq_ok.2 (splitRoutings_eq_some.2 h.routes), ?_⟩
    refine bind_eq_ok.2 ⟨(), refuseIf_eq_ok.2 (not_not.2 rfl), ?_⟩
    refine bind_eq_ok.2 ⟨_, h.grown, ?_⟩
    simp only [check_then, refuseIf_eq_ok, not_or, not_and, not_not, committedSplit_iff, forM_eq_ok,
      Finset.mem_ascending]
    exact ⟨⟨trivial, h.destination, h.generation, h.members owner h.owner, h.owner,
      Finset.ne_empty_of_mem h.owner, h.installed, h.cleaned⟩, h.members, h.after, h.allInstalled,
      h.allCleaned, fun hc => h.before (by simpa using hc)⟩

/-! ## More shards -/

section Grow

variable {c c' : Catalog}

theorem validatePlacement_iff {p : ReplicaSet} :
    c.validatePlacement s p = .ok () ↔
      s < c.routing.shardCount ∧ (∃ m, c.members.get? p.primary = some m ∧ m.role ≠ .learner) ∧
        ∀ replica ∈ p.replicas, replica ≠ p.primary ∧ c.members.contains replica = true := by
  unfold validatePlacement
  rw [check_then, refuseIf_eq_ok, not_le]
  refine and_congr_right fun _ => ?_
  rw [bind_eq_ok]
  simp only [check_then, okOr_eq_ok, refuseIf_eq_ok, forM_eq_ok, not_not]
  constructor
  · rintro ⟨m, hm, hrole, hreplicas⟩
    exact ⟨⟨m, hm, hrole⟩, hreplicas⟩
  · rintro ⟨⟨m, hm, hrole⟩, hreplicas⟩
    exact ⟨m, hm, hrole, hreplicas⟩

theorem validateTransfer_iff :
    c.validateTransfer op = .ok () ↔
      ∃ shard source destination, op.shard = some shard ∧ op.source = some source ∧
        op.destination = some destination ∧ source ≠ destination ∧ shard < c.routing.shardCount ∧
        c.members.contains source = true ∧ c.members.contains destination = true ∧
        op.expectedGeneration ≠ none := by
  unfold validateTransfer
  constructor
  · intro h
    obtain ⟨shard, hshard, h⟩ := bind_eq_ok.1 h
    obtain ⟨source, hsource, h⟩ := bind_eq_ok.1 h
    obtain ⟨destination, hdest, h⟩ := bind_eq_ok.1 h
    simp only [check_then, refuseIf_eq_ok, not_or, not_not, not_le] at h
    exact ⟨shard, source, destination, okOr_eq_ok.1 hshard, okOr_eq_ok.1 hsource, okOr_eq_ok.1 hdest, h⟩
  · rintro ⟨shard, source, destination, hshard, hsource, hdest, h⟩
    refine bind_eq_ok.2 ⟨shard, okOr_eq_ok.2 hshard, bind_eq_ok.2 ⟨source, okOr_eq_ok.2 hsource,
      bind_eq_ok.2 ⟨destination, okOr_eq_ok.2 hdest, ?_⟩⟩⟩
    simp only [check_then, refuseIf_eq_ok, not_or, not_not, not_le]
    exact h

/-- With more shards every operation stays in order, but for a split that was not aborted:
    that one is held against the routing. -/
theorem validateKind_grow (h : c.validateKind op = .ok ())
    (hm : c'.members = c.members) (hle : c.routing.shardCount ≤ c'.routing.shardCount)
    (hsplit : op.kind = .split → op.phase = .aborted) : c'.validateKind op = .ok () := by
  unfold validateKind at h ⊢
  cases hkind : op.kind with
  | transfer =>
    simp only [hkind] at h ⊢
    obtain ⟨shard, source, destination, hshard, hsource, hdest, hne, hlt, hrest⟩ :=
      validateTransfer_iff.1 h
    exact validateTransfer_iff.2 ⟨shard, source, destination, hshard, hsource, hdest, hne,
      lt_of_lt_of_le hlt hle, hm ▸ hrest⟩
  | split =>
    simp only [hkind] at h ⊢
    obtain ⟨owner, before, after, hok⟩ := validateSplit_iff.1 h
    have haborted := hsplit hkind
    refine validateSplit_iff.2 ⟨owner, before, after, { hok with
      members := hm ▸ hok.members, before := ?_, after := ?_ }⟩
    · exact fun _ hne => absurd haborted hne
    · exact fun hcommitted => absurd hcommitted (by simp [haborted, OperationPhase.committedSplit])
  | join =>
    simp only [hkind, validateJoin, hm] at h ⊢
    exact h
  | drain =>
    simp only [hkind, validateDrain, hm] at h ⊢
    exact h
  | remove => rfl

end Grow

end Catalog

end Shardlite.Cluster
