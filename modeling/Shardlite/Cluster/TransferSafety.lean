/-
  Shardlite.Cluster.TransferSafety

  A transfer keeps every acknowledged batch, as long as the source's gate stays
  closed once the source has begun to report its final position, and no prepared
  cross-shard write is decided behind a closed gate.

  Two kinds of commands carry evidence.  A final position says that the source
  is sealed: it writes nothing more, and the file at that position has every
  batch ever acknowledged.  A held position says that the destination's file is a
  copy of the source's, at that position or a later one.  What the catalog
  records of an undecided transfer comes from such commands.
-/
import Shardlite.Cluster.TransferEffect
import Shardlite.Replication.Ordered

namespace Shardlite.Cluster

open Shardlite.Replication Function
open Option (some_ne_none)

variable {c : Catalog} {id : Nat} {op : CatalogOperation} {e : Nat × CatalogOperation}
    {a b i : NodeId}

namespace TransferSystem

variable {W : Type} (sys : TransferSystem W)

/-! ## The condition -/

/-- The shard's primary in a catalog. -/
def primary (c : Catalog) : Option NodeId := (c.placements.get? sys.shard).map (·.primary)

/-- The undecided transfers of the shard, by operation id. -/
def pending (c : Catalog) : List (Nat × CatalogOperation) :=
  (sys.transfers c).filter fun e => e.2.phase.undecided

variable (w : TransferNet W)

/-- Node `i` has closed its gate for an undecided transfer, or has reported the
    position it stopped at. -/
def SealedBy (i : NodeId) : Prop :=
  ∃ e ∈ sys.pending w.catalog,
    (∃ t ∈ w.ticks i, t.stage ≠ .seen ∧ t.op.id = e.1) ∨
      e.2.source = some i ∧ ∃ m ∈ w.commands, m.1 = e.1 ∧ m.2.final ≠ none

instance (i : NodeId) : Decidable (sys.SealedBy w i) :=
  inferInstanceAs (Decidable (∃ e ∈ _, (∃ t ∈ _, _) ∨ _))

/-- The primary's file is not replaced, and the destination of an undecided
    transfer takes its data from the source. -/
def Feeds (j i : NodeId) : Prop :=
  sys.primary w.catalog ≠ some j ∧
    ∀ e ∈ sys.pending w.catalog, e.2.destination = some j → e.2.source = some i

instance (j i : NodeId) : Decidable (sys.Feeds w j i) :=
  inferInstanceAs (Decidable (_ ∧ ∀ e ∈ _, _))

/-- What is asked of a step.  A sealed node's gate is not reopened, by a new map
    or by a split; an application of a map that would open it is not in flight
    when the gate closes.  Batches begin on the primary only, the log they are
    committed to is captured, and a decision to commit a prepared write finds the
    gate open.  Copies are taken as `Feeds` says, and the destination's never goes
    back; what it reports was copied from the source. -/
def Careful : TransferAct W → Prop
  | .applyMap i p => sys.SealedBy w i → sys.shard ∉ p.shardsFor i
  | .splitTick i _ => sys.SealedBy w i → sys.shard ∉ (w.hosts i).splitReopens.getD []
  | .fenceClose i => ∀ a ∈ (w.hosts i).applying, sys.shard ∉ a.placement.shardsFor i
  | .beginWrite i => sys.primary w.catalog = some i
  | .commitWrite i _ => (w.replicas i).leftOver = false
  | .decideWrite i commit => commit → w.parked i ≠ none →
    sys.primary w.catalog = some i ∧ ((w.hosts i).fence.openTerm sys.shard).isSome
  | .pull j i maxTxns =>
    sys.files.Careful w.replicas (.pull j i maxTxns) ∧ sys.Feeds w j i
  | .bootstrap j i lsn torn =>
    sys.Feeds w j i ∧ ∀ e ∈ sys.pending w.catalog, e.2.destination = some j →
      torn = none ∧
        (w.replicas j).position.AtMost ⟨(w.replicas i).positions.epoch, lsn⟩
  | .report i leader bytes =>
    ∀ t ∈ w.ticks i, ∀ progress ∈ sys.reports w i leader bytes t.op, progress.held ≠ none →
      ∀ e ∈ sys.pending w.catalog, e.1 = t.op.id → ∀ a ∈ e.2.source,
        (w.replicas i).origin = some (a, (w.replicas a).life)
  | _ => True

instance [DecidableEq W] (a : TransferAct W) : Decidable (sys.Careful w a) := by
  unfold Careful
  split <;> infer_instance

/-! ## The invariant -/

/-- Node `a` writes no more, and its file at `p` has every acknowledged batch. -/
structure Sealed (a : NodeId) (p : Position) : Prop where
  shut : ¬ (w.hosts a).MayOpen sys.shard
  idle : w.writers a = none
  image : ∃ d, (w.replicas a).images p.epoch p.appliedLsn = some d ∧ ∀ k ∈ w.acked, k.batch ∈ d
  last : ∀ k ∈ w.acked, k.node = a → Position.AtMost ⟨k.epoch, k.lsn⟩ p

/-- The file of `b` is a copy of that of `a`, at `p` or later. -/
structure Held (a b : NodeId) (p : Position) : Prop where
  origin : (w.replicas b).origin = some (a, (w.replicas a).life)
  reached : p.AtMost (w.replicas b).position
  known : ∃ d, (w.replicas a).images p.epoch p.appliedLsn = some d

/-- What is recorded of a transfer was submitted. -/
structure Recorded (commands : List (Nat × TransferProgress)) (id : Nat)
    (op : CatalogOperation) : Prop where
  final : ∀ l, op.finalLsn = some l → ∃ e, op.streamEpoch = some e ∧
    ∃ m ∈ commands, m.1 = id ∧ m.2.final = some ⟨e, l⟩
  durable : ∀ l, op.durableLsn = some l → ∃ e, op.streamEpoch = some e ∧
    ∃ m ∈ commands, m.1 = id ∧ m.2.held = some ⟨e, l⟩
  snapshot : op.snapshotLsn ≠ none → op.durableLsn ≠ none
  fenced : op.finalLsn ≠ none → op.phase = .fencing

structure CatalogOk (c : Catalog) : Prop where
  placed : sys.primary c ≠ none
  ids : ∀ {id op}, c.operations.get? id = some op → op.Moves sys.shard →
    op.id = id ∧ id < c.nextOperationId
  source : ∀ e ∈ sys.pending c, e.2.source = sys.primary c
  destination : ∀ e ∈ sys.pending c, ∃ b, e.2.destination = some b ∧ sys.primary c ≠ some b
  unique : ∀ e ∈ sys.pending c, ∀ e' ∈ sys.pending c, e.1 = e'.1

/-- `op` is what some transfer in `c` was at some time. -/
def Knows (c : Catalog) (op : CatalogOperation) : Prop :=
  op.Moves sys.shard ∧ ∃ op', c.operations.get? op.id = some op' ∧ op.SameMove op'

/-- The tick of node `k` is about a known transfer; once its gate is closed it
    stays closed, and once its writer is drained it stays idle, as long as the
    transfer is undecided. -/
structure TickOk (c : Catalog) (k : NodeId) (h : Host) (stage : Option (WriteStage W))
    (t : TransferTick) : Prop where
  knows : sys.Knows c t.op
  source : t.stage ≠ .seen → t.op.source = some k
  shut : t.stage ≠ .seen → (∃ e ∈ sys.pending c, t.op.id = e.1) → ¬ h.MayOpen sys.shard
  idle : t.stage = .drained → (∃ e ∈ sys.pending c, t.op.id = e.1) → stage = none

structure Inv : Prop where
  files : sys.files.Inv w.replicas
  ordered : ∀ i, (w.replicas i).Ordered (· <+: ·)
  node : ∀ i, (w.hosts i).node = i
  catalog : sys.CatalogOk w.catalog
  recorded : ∀ e ∈ sys.pending w.catalog, Recorded w.commands e.1 e.2
  views : ∀ i c, (w.hosts i).catalog = some c → ∀ e ∈ sys.transfers c, sys.Knows w.catalog e.2
  ticks : ∀ i t, w.ticks i = some t → sys.TickOk w.catalog i (w.hosts i) (w.writers i) t
  writers : ∀ i, w.writers i ≠ none → sys.primary w.catalog = some i
  shipped : ∀ i x e l, w.writers i = some (.shipped x e l) →
    x ∈ (w.replicas i).image ∧ Position.AtMost ⟨e, l⟩ ((w.replicas i).ownPosition sys.files)
  kept : ∀ k ∈ w.acked, ∀ a, sys.primary w.catalog = some a → k.batch ∈ (w.replicas a).image
  acked : ∀ k ∈ w.acked,
    Position.AtMost ⟨k.epoch, k.lsn⟩ ((w.replicas k.node).ownPosition sys.files)
  issued : ∀ m ∈ w.commands, m.1 < w.catalog.nextOperationId
  finals : ∀ e ∈ sys.pending w.catalog, ∀ a, e.2.source = some a → ∀ m ∈ w.commands, m.1 = e.1 →
    ∀ p, m.2.final = some p → sys.Sealed w a p
  helds : ∀ e ∈ sys.pending w.catalog, ∀ a b, e.2.source = some a → e.2.destination = some b →
    ∀ m ∈ w.commands, m.1 = e.1 → ∀ p, m.2.held = some p → Held w a b p

theorem growing_files : Growing sys.files (· <+: ·) :=
  ⟨fun _ => List.prefix_refl _, fun h h' => h.trans h', fun _ _ => List.prefix_append _ _⟩

variable {sys} {w : TransferNet W}

theorem mem_transfers :
    (id, op) ∈ sys.transfers c ↔ c.operations.get? id = some op ∧ op.Moves sys.shard := by
  simp [transfers, OrdMap.get?_eq_some_iff]

theorem mem_pending :
    (id, op) ∈ sys.pending c ↔
      c.operations.get? id = some op ∧ op.Moves sys.shard ∧ op.phase.undecided = true := by
  simp [pending, mem_transfers, and_assoc]

theorem transfers_of_pending (h : e ∈ sys.pending c) :
    e ∈ sys.transfers c := (List.mem_filter.1 h).1

/-! ## What one node may do -/

/-- What the file of node `k` may become. -/
structure FileStep (sys : TransferSystem W) (w : TransferNet W) (k : NodeId)
    (r' : Replica (List W) W) : Prop where
  files : sys.files.Inv (update w.replicas k r')
  ordered : r'.Ordered (· <+: ·)
  forward : ((w.replicas k).ownPosition sys.files).AtMost (r'.ownPosition sys.files)
  /-- The primary's file only grows. -/
  source : sys.primary w.catalog = some k → r'.life = (w.replicas k).life ∧
    ReplicaConfig.Grows (w.replicas k) r' ∧ (w.replicas k).image <+: r'.image
  /-- A destination that holds a copy of the source's file holds a later one. -/
  destination : ∀ e ∈ sys.pending w.catalog, e.2.destination = some k → ∀ a,
    e.2.source = some a → (w.replicas k).origin = some (a, (w.replicas a).life) →
      r'.origin = some (a, (w.replicas a).life) ∧ (w.replicas k).position.AtMost r'.position

/-- A step of node `k` alone: what its parts may become. -/
structure NodeStep (sys : TransferSystem W) (w : TransferNet W) (k : NodeId) (h' : Host)
    (r' : Replica (List W) W) (s' : Option (WriteStage W)) (t' : Option TransferTick) : Prop
    extends FileStep sys w k r' where
  node : h'.node = k
  view : ∀ c, h'.catalog = some c → ∀ e ∈ sys.transfers c, sys.Knows w.catalog e.2
  /-- A sealed node's gate is not reopened. -/
  shut : h'.MayOpen sys.shard → (w.hosts k).MayOpen sys.shard ∨ ¬ sys.SealedBy w k
  writer : s' ≠ none →
    sys.primary w.catalog = some k ∧ (w.writers k ≠ none ∨ (w.hosts k).MayOpen sys.shard)
  shipped : ∀ x e l, s' = some (.shipped x e l) →
    x ∈ r'.image ∧ Position.AtMost ⟨e, l⟩ (r'.ownPosition sys.files)
  tick : t' = w.ticks k ∨ ∀ t, t' = some t → sys.TickOk w.catalog k h' s' t

variable {h' : Host} {s' : Option (WriteStage W)}

theorem Inv.tick_keep (hw : sys.Inv w) {k : NodeId} {t : TransferTick} (ht : w.ticks k = some t)
    (hshut : h'.MayOpen sys.shard → (w.hosts k).MayOpen sys.shard ∨ ¬ sys.SealedBy w k)
    (hwriter : s' ≠ none → w.writers k ≠ none ∨ (w.hosts k).MayOpen sys.shard) :
    sys.TickOk w.catalog k h' s' t := by
  have hold := hw.ticks k t ht
  refine ⟨hold.knows, hold.source, fun hstage hpend hopen => ?_, fun hstage hpend => ?_⟩
  · -- the tick itself seals the node
    obtain ⟨e, he, hid⟩ := hpend
    rcases hshut hopen with hopen | hnot
    · exact hold.shut hstage ⟨e, he, hid⟩ hopen
    · exact hnot ⟨e, he, .inl ⟨t, ht, hstage, hid⟩⟩
  · by_contra hbusy
    have hseen : t.stage ≠ .seen := by
      rw [hstage]
      decide
    rcases hwriter hbusy with hw' | hopen
    · exact hw' (hold.idle hstage hpend)
    · exact hold.shut hseen hpend hopen

section NodeStep

variable {k : NodeId} {h' : Host} {r' : Replica (List W) W} {s' : Option (WriteStage W)}
  {t' : Option TransferTick}
variable {p : Position}

/-- What holds of the new parts of `k` and of what the other nodes are holds after
    the step. -/
theorem forall_setNode {P : NodeId → Host → Replica (List W) W → Option (WriteStage W) →
      Option TransferTick → Prop} (hself : P k h' r' s' t')
    (hother : ∀ i, P i (w.hosts i) (w.replicas i) (w.writers i) (w.ticks i)) (i : NodeId) :
    P i ((w.setNode k h' r' s' t').hosts i) ((w.setNode k h' r' s' t').replicas i)
      ((w.setNode k h' r' s' t').writers i) ((w.setNode k h' r' s' t').ticks i) := by
  unfold TransferNet.setNode
  by_cases hk : i = k
  · subst hk
    simpa only [update_self] using hself
  · simpa only [update_of_ne hk] using hother i

theorem NodeStep.primary (hs : sys.NodeStep w k h' r' s' t') (ha : sys.primary w.catalog = some a) :
    ((w.setNode k h' r' s' t').replicas a).life = (w.replicas a).life ∧
      ReplicaConfig.Grows (w.replicas a) ((w.setNode k h' r' s' t').replicas a) ∧
      (w.replicas a).image <+: ((w.setNode k h' r' s' t').replicas a).image :=
  forall_setNode (P := fun i _ r _ _ => sys.primary w.catalog = some i →
      r.life = (w.replicas i).life ∧ ReplicaConfig.Grows (w.replicas i) r ∧
        (w.replicas i).image <+: r.image)
    hs.source (fun _ _ => ⟨rfl, ⟨le_refl _, fun _ _ _ _ h => h⟩, List.prefix_refl _⟩) a ha

theorem NodeStep.sealed (hw : sys.Inv w) (hs : sys.NodeStep w k h' r' s' t')
    (he : e ∈ sys.pending w.catalog) (ha : e.2.source = some a) {m : Nat × TransferProgress}
    (hm : m ∈ w.commands) (hid : m.1 = e.1)
    (hp : m.2.final = some p) :
    sys.Sealed (w.setNode k h' r' s' t') a p := by
  obtain ⟨hshut, hidle, ⟨d, hd, hbatches⟩, hlast⟩ := hw.finals e he a ha m hm hid p hp
  have hprimary : sys.primary w.catalog = some a := (hw.catalog.source e he).symm.trans ha
  obtain ⟨hlife, hgrows, -⟩ := hs.primary hprimary
  refine ⟨?_, ?_, ⟨d, hgrows.images hlife hd, hbatches⟩, hlast⟩
  · refine forall_setNode (P := fun i h _ _ _ => i = a → ¬ h.MayOpen sys.shard) ?_
      (fun i hi => hi ▸ hshut) a rfl
    rintro rfl hopen
    rcases hs.shut hopen with hopen | hnot
    · exact hshut hopen
    · exact hnot ⟨e, he, .inr ⟨ha, m, hm, hid, hp.trans_ne (some_ne_none p)⟩⟩
  · refine forall_setNode (P := fun i _ _ s _ => i = a → s = none) ?_ (fun i hi => hi ▸ hidle) a rfl
    rintro rfl
    by_contra hbusy
    rcases (hs.writer hbusy).2 with hw' | hopen
    · exact hw' hidle
    · exact hshut hopen

theorem NodeStep.held (hw : sys.Inv w) (hs : sys.NodeStep w k h' r' s' t')
    (he : e ∈ sys.pending w.catalog) (ha : e.2.source = some a) (hb : e.2.destination = some b)
    (hheld : Held w a b p) : Held (w.setNode k h' r' s' t') a b p := by
  obtain ⟨horigin, hreached, d, hd⟩ := hheld
  have hprimary : sys.primary w.catalog = some a := (hw.catalog.source e he).symm.trans ha
  obtain ⟨hlife, hgrows, -⟩ := hs.primary hprimary
  have hcopy : ((w.setNode k h' r' s' t').replicas b).origin = some (a, (w.replicas a).life) ∧
      (w.replicas b).position.AtMost ((w.setNode k h' r' s' t').replicas b).position := by
    refine forall_setNode (P := fun i _ r _ _ => i = b → r.origin = some (a, (w.replicas a).life) ∧
      (w.replicas b).position.AtMost r.position) ?_ ?_ b rfl
    · rintro rfl
      exact hs.destination e he hb a ha horigin
    · rintro i rfl
      exact ⟨horigin, .refl _⟩
  exact ⟨hlife ▸ hcopy.1, hreached.trans hcopy.2, d, hgrows.images hlife hd⟩

theorem Inv.nodeStep (hw : sys.Inv w) (hs : sys.NodeStep w k h' r' s' t') :
    sys.Inv (w.setNode k h' r' s' t') where
  files := hs.files
  ordered := forall_setNode (P := fun _ _ r _ _ => r.Ordered (· <+: ·)) hs.ordered hw.ordered
  node := forall_setNode (P := fun i h _ _ _ => h.node = i) hs.node hw.node
  catalog := hw.catalog
  recorded := hw.recorded
  views := forall_setNode (P := fun _ h _ _ _ => ∀ c, h.catalog = some c →
    ∀ e ∈ sys.transfers c, sys.Knows w.catalog e.2) hs.view hw.views
  ticks := by
    refine forall_setNode (P := fun i h _ s t => ∀ t', t = some t' →
      sys.TickOk w.catalog i h s t') (fun t ht => ?_) hw.ticks
    rcases hs.tick with hsame | hok
    · exact hw.tick_keep (hsame.symm.trans ht) hs.shut fun hbusy => (hs.writer hbusy).2
    · exact hok t ht
  writers := forall_setNode (P := fun i _ _ s _ => s ≠ none → sys.primary w.catalog = some i)
    (fun hbusy => (hs.writer hbusy).1) hw.writers
  shipped := forall_setNode (P := fun _ _ r s _ => ∀ x e l, s = some (.shipped x e l) →
    x ∈ r.image ∧ Position.AtMost ⟨e, l⟩ (r.ownPosition sys.files)) hs.shipped hw.shipped
  kept k hk a ha := (hs.primary ha).2.2.subset (hw.kept k hk a ha)
  acked x hx := forall_setNode (P := fun i _ r _ _ => x.node = i →
      Position.AtMost ⟨x.epoch, x.lsn⟩ (r.ownPosition sys.files))
    (fun hnode => (hnode ▸ hw.acked x hx :
      Position.AtMost _ ((w.replicas k).ownPosition _)).trans hs.forward)
    (fun _ hnode => hnode ▸ hw.acked x hx) x.node rfl
  issued := hw.issued
  finals e he a ha m hm hid p hp := hs.sealed hw he ha hm hid hp
  helds e he a b ha hb m hm hid p hp := hs.held hw he ha hb (hw.helds e he a b ha hb m hm hid p hp)

end NodeStep

/-! ## Files -/

variable {maxTxns lsn : Nat} {torn : Option (List W)}

section Files

variable (hw : sys.Inv w) (k : NodeId)

include hw

theorem FileStep.keep : sys.FileStep w k (w.replicas k) where
  files := by
    rw [update_eq_self]
    exact hw.files
  ordered := hw.ordered k
  forward := .refl _
  source _ := ⟨rfl, ⟨le_refl _, fun _ _ _ _ h => h⟩, List.prefix_refl _⟩
  destination _ _ _ _ _ ho := ⟨ho, .refl _⟩

theorem FileStep.setFlags (led leftOver : Bool) :
    sys.FileStep w k { w.replicas k with led, leftOver } where
  files := hw.files.setFlags k led leftOver
  ordered := ⟨(hw.ordered k).le⟩
  forward := .refl _
  source _ := ⟨rfl, ⟨le_refl _, fun _ _ _ _ h => h⟩, List.prefix_refl _⟩
  destination _ _ _ _ _ ho := ⟨ho, .refl _⟩

theorem FileStep.shutdown (leftOver : Bool) :
    sys.FileStep w k ((w.replicas k).shutdown sys.files leftOver) where
  files := hw.files.shutdown k leftOver
  ordered := ⟨(hw.ordered k).le⟩
  forward := by
    simp only [Replica.shutdown, Replica.ownPosition, Replica.lastLsn,
      Positions.loadOrInit_markClean]
    exact .refl _
  source _ := ⟨rfl, ⟨le_refl _, fun _ _ _ _ h => h⟩, List.prefix_refl _⟩
  destination _ _ _ _ _ ho := ⟨ho, .refl _⟩

/-- Only the primary has a batch that a crash can leave unshipped. -/
theorem FileStep.crash {lost : Option W} (leftOver : Bool)
    (hlost : lost ≠ none → sys.primary w.catalog = some k) :
    sys.FileStep w k ((w.replicas k).crash sys.files lost leftOver) where
  files := hw.files.crash k lost leftOver
  ordered := (hw.ordered k).crash sys.growing_files (hw.files.good k) lost leftOver
  forward := by
    have hgood := hw.files.good k
    have hepoch : (Positions.loadOrInit (some (w.replicas k).file)).epoch =
        (w.replicas k).positions.epoch + 1 := by
      rw [Positions.loadOrInit_of_dirty hgood.dirty, hgood.epoch]
    refine .inl ?_
    show _ < (Positions.loadOrInit (some (w.replicas k).file)).epoch
    rw [hepoch]
    exact Nat.lt_succ_self _
  source _ := by
    refine ⟨rfl, .crash (hw.files.good k) lost leftOver, ?_⟩
    cases lost with
    | none => exact List.prefix_refl _
    | some batch => exact List.prefix_append _ _
  destination e he hb a ha ho := by
    cases lost with
    | none => exact ⟨ho, .refl _⟩
    | some batch =>
      obtain ⟨b, hdest, hne⟩ := hw.catalog.destination e he
      have hkb : k = b := Option.mem_unique hb hdest
      exact absurd (hkb ▸ hlost (some_ne_none batch)) hne

theorem FileStep.write (hprimary : sys.primary w.catalog = some k) (batch : W) :
    sys.FileStep w k ((w.replicas k).write sys.files batch) where
  files := hw.files.write k batch
  ordered := (hw.ordered k).write sys.growing_files (hw.files.good k) batch
  forward := by
    have hlast := Replica.lastLsn_succ (hw.files.good k).next_pos
    refine .inr ⟨rfl, ?_⟩
    show (w.replicas k).lastLsn sys.files ≤ ((w.replicas k).write sys.files batch).lastLsn sys.files
    rw [Replica.write_lastLsn]
    omega
  source _ := ⟨rfl, .write (hw.files.good k) batch, List.prefix_append _ _⟩
  destination e he hb a ha ho := by
    obtain ⟨b, hdest, hne⟩ := hw.catalog.destination e he
    have hkb : k = b := Option.mem_unique hb hdest
    exact absurd (hkb ▸ hprimary) hne

omit hw in
theorem FileStep.replace {c : Copy (List W)} {origin : Option (NodeId × Nat)}
    (hprimary : sys.primary w.catalog ≠ some k)
    (hfiles : sys.files.Inv (update w.replicas k ((w.replicas k).replace sys.files c origin)))
    (hdest : ∀ e ∈ sys.pending w.catalog, e.2.destination = some k → ∀ a, e.2.source = some a →
      origin = some (a, (w.replicas a).life) ∧ (w.replicas k).position.AtMost c.position) :
    sys.FileStep w k ((w.replicas k).replace sys.files c origin) where
  files := hfiles
  ordered := .replace sys.growing_files c origin
  forward := .refl _
  source hk := absurd hk hprimary
  destination e he hb a ha _ := hdest e he hb a ha

theorem FileStep.pull (hne : i ≠ k) (hc : sys.Careful w (.pull k i maxTxns)) :
    sys.FileStep w k ((w.replicas k).pull sys.files (w.replicas i) i maxTxns) := by
  have hfiles := hw.files.pull hne hc.1
  rcases hw.files.pull_cases hc.1 with hsame | ⟨c, hpull, hmost⟩
  · rw [hsame]
    exact .keep hw k
  · rw [hpull] at hfiles ⊢
    refine .replace k hc.2.1 hfiles fun e he hb a ha => ⟨?_, hmost⟩
    obtain rfl : i = a := Option.some.inj ((hc.2.2 e he hb).symm.trans ha)
    rfl

theorem FileStep.bootstrap (hne : i ≠ k) (hc : sys.Careful w (.bootstrap k i lsn torn)) :
    sys.FileStep w k ((w.replicas k).bootstrap sys.files (w.replicas i) i lsn torn) := by
  have hfiles : sys.files.Inv (update w.replicas k
      ((w.replicas k).bootstrap sys.files (w.replicas i) i lsn torn)) := hw.files.bootstrap hne
  rcases Replica.bootstrap_cases (w.replicas k) (w.replicas i) i lsn torn with hsame | ⟨c, hpos, hboot⟩
  · rw [hsame]
    exact .keep hw k
  · rw [hboot] at hfiles ⊢
    refine .replace k hc.1.1 hfiles fun e he hb a ha => ?_
    obtain rfl : i = a := Option.some.inj ((hc.1.2 e he hb).symm.trans ha)
    obtain ⟨rfl, hmost⟩ := hc.2 e he hb
    exact ⟨rfl, hpos ▸ hmost⟩

end Files

/-! ## Gates -/

variable {term : Nat}

section Gates

variable {h : Host} {shard : ShardId}

theorem mayOpen_of_open (ho : (h.fence.openTerm shard).isSome) : h.MayOpen shard := by
  obtain ⟨term, hterm⟩ := Option.isSome_iff_exists.1 ho
  exact ⟨term, .inl hterm⟩

theorem mayOpen_of_applyPlacement {p : Placement} (ho : (h.applyPlacement p).MayOpen shard) :
    h.MayOpen shard ∨ shard ∈ p.shardsFor h.node := by
  obtain ⟨term, hterm⟩ := ho
  rcases hterm.of_applyPlacement with hold | ⟨-, hnew⟩
  · exact .inl ⟨term, hold⟩
  · exact .inr hnew

theorem mayOpen_of_resume {ok : Bool} (ho : (h.resume ok).MayOpen shard) : h.MayOpen shard := by
  obtain ⟨term, hterm⟩ := ho
  exact ⟨term, hterm.of_resume⟩

theorem mayOpen_of_splitTick (ho : (h.splitTick term).MayOpen shard) :
    h.MayOpen shard ∨ shard ∈ h.splitReopens.getD [] := by
  obtain ⟨t, ht⟩ := ho
  rcases ht.of_splitTick with hold | ⟨-, mine, hmine, hs⟩
  · exact .inl ⟨t, hold⟩
  · rw [hmine]
    exact .inr hs

theorem mayOpen_of_stepDown (ho : Host.MayOpen { h with fence := h.fence.stepDown term } shard) :
    h.MayOpen shard := by
  obtain ⟨t, hopen | hflight⟩ := ho
  · cases hopen
  · exact ⟨t, .inr hflight⟩

theorem not_mayOpen_restart : ¬ h.restart.MayOpen shard := fun ⟨_, hc⟩ => Host.not_claims_restart hc

theorem not_mayOpen_closeShard
    (hidle : ∀ a ∈ h.applying, shard ∉ a.placement.shardsFor h.node) :
    ¬ Host.MayOpen { h with fence := (h.fence.closeShard shard).1 } shard := by
  rintro ⟨t, hopen | ⟨a, ha, -, hs⟩⟩
  · exact (Fence.openTerm_closeShard hopen).1 rfl
  · exact hidle a ha hs

end Gates

/-! ## Steps of one node -/

variable {x : W} {j : NodeId}

section

variable (hw : sys.Inv w)

include hw

theorem NodeStep.keep (k : NodeId) :
    sys.NodeStep w k (w.hosts k) (w.replicas k) (w.writers k) (w.ticks k) :=
  { FileStep.keep hw k with
    node := hw.node k, view := hw.views k, shut := .inl
    writer := fun hbusy => ⟨hw.writers k hbusy, .inl hbusy⟩
    shipped := hw.shipped k, tick := .inl rfl }

theorem Inv.setHost {k : NodeId} (hnode : h'.node = k)
    (hview : ∀ c, h'.catalog = some c → ∀ e ∈ sys.transfers c, sys.Knows w.catalog e.2)
    (hshut : h'.MayOpen sys.shard → (w.hosts k).MayOpen sys.shard ∨ ¬ sys.SealedBy w k) :
    sys.Inv (w.setHost k h') := by
  have heq : w.setHost k h' = w.setNode k h' (w.replicas k) (w.writers k) (w.ticks k) := by
    simp [TransferNet.setHost, TransferNet.setNode]
  rw [heq]
  exact hw.nodeStep
    { NodeStep.keep hw k with node := hnode, view := hview, shut := hshut, tick := .inl rfl }

theorem Inv.setHost_of_catalog {k : NodeId} (hnode : h'.node = (w.hosts k).node)
    (hcat : h'.catalog = (w.hosts k).catalog)
    (hshut : h'.MayOpen sys.shard → (w.hosts k).MayOpen sys.shard ∨ ¬ sys.SealedBy w k) :
    sys.Inv (w.setHost k h') :=
  hw.setHost (hnode.trans (hw.node k)) (fun c hc => hw.views k c (hcat ▸ hc)) hshut

theorem Inv.setReplica {k : NodeId} {r' : Replica (List W) W}
    (hfile : sys.FileStep w k r')
    (hshipped : ∀ x e l, w.writers k = some (.shipped x e l) →
      x ∈ r'.image ∧ Position.AtMost ⟨e, l⟩ (r'.ownPosition sys.files)) :
    sys.Inv (w.setReplica k r') := by
  have heq : w.setReplica k r' = w.setNode k (w.hosts k) r' (w.writers k) (w.ticks k) := by
    simp [TransferNet.setReplica, TransferNet.setNode]
  rw [heq]
  exact hw.nodeStep
    { NodeStep.keep hw k with toFileStep := hfile, shipped := hshipped, tick := .inl rfl }

theorem Inv.setWriter {k : NodeId} (hwriter : s' ≠ none →
      sys.primary w.catalog = some k ∧ (w.writers k ≠ none ∨ (w.hosts k).MayOpen sys.shard))
    (hshipped : ∀ x e l, s' = some (.shipped x e l) → w.writers k = some (.shipped x e l)) :
    sys.Inv (w.setWriter k s') := by
  have heq : w.setWriter k s' = w.setNode k (w.hosts k) (w.replicas k) s' (w.ticks k) := by
    simp [TransferNet.setWriter, TransferNet.setNode]
  rw [heq]
  exact hw.nodeStep
    { NodeStep.keep hw k with
      writer := hwriter, tick := .inl rfl
      shipped := fun x e l h => hw.shipped k x e l (hshipped x e l h) }

theorem Inv.setTick {k : NodeId} {t' : Option TransferTick}
    (htick : ∀ t, t' = some t → sys.TickOk w.catalog k (w.hosts k) (w.writers k) t) :
    sys.Inv (w.setTick k t') := by
  have heq : w.setTick k t' = w.setNode k (w.hosts k) (w.replicas k) (w.writers k) t' := by
    simp [TransferNet.setTick, TransferNet.setNode]
  rw [heq]
  exact hw.nodeStep { NodeStep.keep hw k with tick := .inr htick }

/-- Nothing is kept of a prepared write before its decision. -/
theorem Inv.setParked (k : NodeId) (batch : Option W) : sys.Inv (w.setParked k batch) :=
  { hw with
    finals := fun e he a ha m hm hid p hp => { hw.finals e he a ha m hm hid p hp with }
    helds := fun e he a b ha hb m hm hid p hp => { hw.helds e he a b ha hb m hm hid p hp with } }

theorem Inv.applyMap {p : Placement} (hc : sys.Careful w (.applyMap i p)) :
    sys.Inv (w.setHost i ((w.hosts i).applyPlacement p)) := by
  refine hw.setHost_of_catalog (Host.applyPlacement_node p) ?_ fun hopen => ?_
  · unfold Host.applyPlacement
    split_ifs <;> rfl
  · refine (mayOpen_of_applyPlacement hopen).imp_right fun hs hsealed => ?_
    rw [hw.node i] at hs
    exact hc hsealed hs

theorem Inv.resume (i : NodeId) (ok : Bool) :
    sys.Inv (w.setHost i ((w.hosts i).resume ok)) :=
  hw.setHost_of_catalog (Host.resume_node ok) (Host.resume_catalog ok) fun hopen =>
    .inl (mayOpen_of_resume hopen)

theorem Inv.splitTick (hc : sys.Careful w (.splitTick i term)) :
    sys.Inv (w.setHost i ((w.hosts i).splitTick term)) := by
  refine hw.setHost_of_catalog (Host.splitTick_node term) ?_ fun hopen => ?_
  · unfold Host.splitTick
    split <;> rfl
  · exact (mayOpen_of_splitTick hopen).imp_right fun hs hsealed => hc hsealed hs

end

theorem CatalogOk.knows (hok : sys.CatalogOk c) (he : e ∈ sys.transfers c) : sys.Knows c e.2 := by
  obtain ⟨id, op⟩ := e
  obtain ⟨hfound, hmoves⟩ := mem_transfers.1 he
  refine ⟨hmoves, op, ?_, .refl op⟩
  show c.operations.get? op.id = some op
  rw [(hok.ids hfound hmoves).1]
  exact hfound

section

variable (hw : sys.Inv w)

include hw

theorem Inv.learn (i : NodeId) :
    sys.Inv (w.setHost i { w.hosts i with catalog := some w.catalog }) := by
  refine hw.setHost (hw.node i) (fun c hc e he => ?_) .inl
  cases hc
  exact hw.catalog.knows he

/-- The gate is open on the primary: a batch may begin. -/
theorem Inv.setChecked (hprimary : sys.primary w.catalog = some i)
    (hopen : ((w.hosts i).fence.openTerm sys.shard).isSome) :
    sys.Inv (w.setWriter i (some .checked)) := by
  refine hw.setWriter (fun _ => ⟨hprimary, .inr (mayOpen_of_open hopen)⟩) fun x e l hx => ?_
  cases hx

theorem Inv.beginWrite (hc : sys.Careful w (.beginWrite i)) :
    sys.Inv (sys.beginWrite w i) := by
  unfold TransferSystem.beginWrite
  split_ifs with h
  · exact hw.setChecked hc h.1.1
  · exact hw

theorem Inv.prepareWrite (i : NodeId) (batch : W) : sys.Inv (sys.prepareWrite w i batch) := by
  unfold TransferSystem.prepareWrite
  split_ifs
  · exact hw.setParked i (some batch)
  · exact hw

/-- Under the condition a prepared write is decided like a batch is begun. -/
theorem Inv.decideWrite {commit : Bool} (hc : sys.Careful w (.decideWrite i commit)) :
    sys.Inv (sys.decideWrite w i commit) := by
  unfold TransferSystem.decideWrite
  split
  · next batch hidle hparked =>
      simp only
      split_ifs with hno hready
      · exact hw.setParked i none
      · exact hw.setChecked (hc (not_not.1 fun h => hno (.inl h))
          (hparked.trans_ne (some_ne_none batch))).1 hready.1
      · rw [not_or, not_not, not_not] at hno
        have hopen := (hc hno.1 (hparked.trans_ne (some_ne_none batch))).2
        exact absurd ⟨hopen, hno.2, hidle⟩ hready
  · exact hw

theorem Inv.commitWrite {batch : W} (hc : sys.Careful w (.commitWrite i batch)) :
    sys.Inv (sys.commitWrite w i batch) := by
  unfold TransferSystem.commitWrite
  split
  · next hchecked =>
      have hbusy : w.writers i ≠ none := hchecked.trans_ne (some_ne_none _)
      have hprimary := hw.writers i hbusy
      have heq : ∀ r s, (w.setReplica i r).setWriter i s =
          w.setNode i (w.hosts i) r s (w.ticks i) := by
        intro r s
        simp [TransferNet.setReplica, TransferNet.setWriter, TransferNet.setNode]
      have hcommit : (w.replicas i).commit sys.files ((w.parked i).getD batch) =
          (w.replicas i).write sys.files ((w.parked i).getD batch) := by
        unfold Replica.commit
        rw [show (w.replicas i).leftOver = false from hc]
        rfl
      simp only [heq, hcommit]
      refine Inv.setParked (hw.nodeStep ?_) i none
      exact
        { NodeStep.keep hw i with
          toFileStep := .write hw i hprimary _
          writer := fun _ => ⟨hprimary, .inl hbusy⟩
          shipped := fun x e l hx => by
            obtain ⟨rfl, rfl, rfl⟩ := WriteStage.shipped.inj (Option.some.inj hx)
            exact ⟨List.mem_append_right _ (List.mem_singleton.2 rfl), .refl _⟩
          tick := .inl rfl }
  · exact hw

/-- The client is told of a batch that is in the primary's file. -/
theorem Inv.acknowledge {e l : Nat} (hship : w.writers i = some (.shipped x e l)) :
    sys.Inv { w.setWriter i none with acked := ⟨i, x, e, l⟩ :: w.acked } := by
  have hnone : sys.Inv (w.setWriter i none) :=
    hw.setWriter (fun h => absurd rfl h) fun _ _ _ h => by cases h
  have hbusy : w.writers i ≠ none := hship.trans_ne (some_ne_none _)
  have hprimary := hw.writers i hbusy
  obtain ⟨hmem, hpos⟩ := hw.shipped i x e l hship
  refine { hnone with
    kept := fun k hk a ha => ?_, acked := fun k hk => ?_
    finals := fun op hop a ha m hm hid p hp => ?_
    helds := fun op hop a b ha hb m hm hid p hp =>
      { hnone.helds op hop a b ha hb m hm hid p hp with } }
  · rcases List.mem_cons.1 hk with rfl | hk
    · obtain rfl : i = a := Option.mem_unique hprimary ha
      exact hmem
    · exact hnone.kept k hk a ha
  · rcases List.mem_cons.1 hk with rfl | hk
    · exact hpos
    · exact hnone.acked k hk
  · -- a sealed source has no batch to acknowledge
    have hsource : sys.primary w.catalog = some a := (hw.catalog.source op hop).symm.trans ha
    obtain rfl : i = a := Option.mem_unique hprimary hsource
    exact absurd (hw.finals op hop i ha m hm hid p hp).idle hbusy

theorem Inv.endWrite (i : NodeId) (ok : Bool) :
    sys.Inv (TransferSystem.endWrite w i ok) := by
  have hnone : sys.Inv (w.setWriter i none) :=
    hw.setWriter (fun h => absurd rfl h) fun _ _ _ h => by cases h
  unfold TransferSystem.endWrite
  split
  · next x e l hship =>
      split_ifs
      · exact hw.acknowledge hship
      · exact hnone
  · exact hnone.setParked i none
  · exact hw

theorem Inv.restarted {r : Replica (List W) W}
    (hfile : sys.FileStep w i r) : sys.Inv (TransferSystem.restarted w i r) := by
  have heq : TransferSystem.restarted w i r =
      (w.setNode i (w.hosts i).restart r none none).setParked i none := by
    simp [TransferSystem.restarted, TransferNet.setReplica, TransferNet.setHost,
      TransferNet.setWriter, TransferNet.setTick, TransferNet.setNode]
  rw [heq]
  refine Inv.setParked (hw.nodeStep ?_) i none
  exact
    { hfile with
      node := hw.node i, view := hw.views i
      shut := fun hopen => absurd hopen not_mayOpen_restart
      writer := fun h => absurd rfl h
      shipped := fun _ _ _ h => by cases h
      tick := .inr fun _ h => by cases h }

theorem Inv.crash (i : NodeId) (lost : Option W) (leftOver : Bool) :
    sys.Inv (sys.crash w i lost leftOver) := by
  refine hw.restarted (FileStep.crash hw i leftOver fun hlost => ?_)
  split at hlost
  · next hchecked => exact hw.writers i (hchecked.trans_ne (some_ne_none _))
  · exact absurd rfl hlost

theorem Inv.shutdown (i : NodeId) (leftOver : Bool) : sys.Inv (sys.shutdown w i leftOver) := by
  unfold TransferSystem.shutdown
  split_ifs
  · exact hw.restarted (FileStep.shutdown hw i leftOver)
  · exact hw

theorem Inv.setFlags (i : NodeId) (led leftOver : Bool) :
    sys.Inv (w.setReplica i { w.replicas i with led, leftOver }) :=
  hw.setReplica (FileStep.setFlags hw i led leftOver) (hw.shipped i)

theorem Inv.not_shipped (hfeeds : sys.Feeds w j i) {e l : Nat} :
    w.writers j ≠ some (.shipped x e l) := fun hship =>
  hfeeds.1 (hw.writers j (hship.trans_ne (some_ne_none _)))

theorem Inv.pull (hc : sys.Careful w (.pull j i maxTxns)) :
    sys.Inv (sys.pull w j i maxTxns) := by
  unfold TransferSystem.pull
  split_ifs with h
  · exact hw.setReplica (FileStep.pull hw j h.2 hc) fun x e l hx =>
      absurd hx (hw.not_shipped hc.2)
  · exact hw

theorem Inv.bootstrap (hc : sys.Careful w (.bootstrap j i lsn torn)) :
    sys.Inv (sys.bootstrap w j i lsn torn) := by
  unfold TransferSystem.bootstrap
  split_ifs with h
  · exact hw.setReplica (FileStep.bootstrap hw j h.2.2 hc) fun x e l hx =>
      absurd hx (hw.not_shipped hc.1)
  · exact hw

end

/-! ## Ticks and reports -/

theorem activeTransfer_mem (h : c.activeTransfer = some op)
    (hshard : op.shard = some sys.shard) : ∃ id, (id, op) ∈ sys.transfers c := by
  have hkind := List.find?_some h
  obtain ⟨⟨id, op'⟩, hmem, rfl⟩ := List.mem_map.1 (List.mem_of_find?_eq_some h)
  refine ⟨id, List.mem_filter.2 ⟨hmem, ?_⟩⟩
  have hkind : op'.kind = .transfer := (of_decide_eq_true hkind).1
  exact decide_eq_true ⟨hkind, hshard⟩

theorem Inv.tick (hw : sys.Inv w) (i : NodeId) : sys.Inv (sys.tick w i) := by
  unfold TransferSystem.tick
  split
  · next op hop =>
      split_ifs with hshard
      · refine hw.setTick fun t ht => ?_
        cases ht
        obtain ⟨c, hc, hactive⟩ := Option.bind_eq_some_iff.1 hop
        obtain ⟨id, hmem⟩ := activeTransfer_mem hactive hshard
        exact ⟨hw.views i c hc _ hmem, fun h => absurd rfl h, fun h => absurd rfl h,
          fun h => by cases h⟩
      · exact hw
  · exact hw

theorem Inv.fenceClose (hw : sys.Inv w) (hc : sys.Careful w (.fenceClose i)) :
    sys.Inv (sys.fenceClose w i) := by
  unfold TransferSystem.fenceClose
  split
  · next op hop =>
      split_ifs with h
      · have hshut : ¬ Host.MayOpen
            { w.hosts i with fence := ((w.hosts i).fence.closeShard sys.shard).1 } sys.shard := by
          refine not_mayOpen_closeShard fun a ha => ?_
          rw [hw.node i]
          exact hc a ha
        have heq : ∀ h t, (w.setHost i h).setTick i t =
            w.setNode i h (w.replicas i) (w.writers i) t := by
          intro h t
          simp [TransferNet.setHost, TransferNet.setTick, TransferNet.setNode]
        rw [heq]
        exact hw.nodeStep
          { NodeStep.keep hw i with
            shut := fun hopen => absurd hopen hshut
            tick := .inr fun t ht => by
              cases ht
              exact ⟨(hw.ticks i _ hop).knows, fun _ => h.1, fun _ _ => hshut, fun h => by cases h⟩ }
      · exact hw
  · exact hw

theorem Inv.fenceDrain (hw : sys.Inv w) (i : NodeId) :
    sys.Inv (TransferSystem.fenceDrain w i) := by
  unfold TransferSystem.fenceDrain
  split
  · next op hop =>
      split_ifs with hidle
      · refine Inv.setParked (hw.setTick fun t ht => ?_) i none
        cases ht
        have hold := hw.ticks i _ hop
        have hclosed : FenceStage.closed ≠ .seen := by decide
        exact ⟨hold.knows, fun _ => hold.source hclosed, fun _ => hold.shut hclosed,
          fun _ _ => hidle⟩
      · exact hw
  · exact hw

theorem Inv.submit (hw : sys.Inv w) {cmds : List (Nat × TransferProgress)}
    (hissued : ∀ m ∈ cmds, m.1 < w.catalog.nextOperationId)
    (hfinal : ∀ e ∈ sys.pending w.catalog, ∀ a, e.2.source = some a → ∀ m ∈ cmds, m.1 = e.1 →
      ∀ p, m.2.final = some p → sys.Sealed w a p)
    (hheld : ∀ e ∈ sys.pending w.catalog, ∀ a b, e.2.source = some a → e.2.destination = some b →
      ∀ m ∈ cmds, m.1 = e.1 → ∀ p, m.2.held = some p → Held w a b p) :
    sys.Inv (w.submit i cmds) := by
  have hnone : sys.Inv (w.setTick i none) := hw.setTick fun t h => by cases h
  refine { hnone with
    recorded := fun e he => ?_, issued := fun m hm => ?_
    finals := fun e he a ha m hm hid p hp => ?_
    helds := fun e he a b ha hb m hm hid p hp => ?_ }
  · obtain ⟨hf, hd, hsnap, hfence⟩ := hnone.recorded e he
    refine ⟨fun l hl => ?_, fun l hl => ?_, hsnap, hfence⟩
    · obtain ⟨epoch, hepoch, m, hm, hmid⟩ := hf l hl
      exact ⟨epoch, hepoch, m, List.mem_append_right _ hm, hmid⟩
    · obtain ⟨epoch, hepoch, m, hm, hmid⟩ := hd l hl
      exact ⟨epoch, hepoch, m, List.mem_append_right _ hm, hmid⟩
  · exact (List.mem_append.1 hm).elim (hissued m) (hnone.issued m)
  · rcases List.mem_append.1 hm with hm | hm
    · exact { hfinal e he a ha m hm hid p hp with }
    · exact { hw.finals e he a ha m hm hid p hp with }
  · rcases List.mem_append.1 hm with hm | hm
    · exact { hheld e he a b ha hb m hm hid p hp with }
    · exact { hw.helds e he a b ha hb m hm hid p hp with }

end TransferSystem

/-! ### What a report may contain -/

namespace CatalogOperation

variable {op : CatalogOperation} {i : NodeId} {leader : Bool} {epoch lsn bytes limit : Nat}
  {position p : Position} {progress : TransferProgress}

theorem sourceProgress_held (h : op.sourceProgress epoch lsn bytes limit = some progress) :
    progress.held = none := by
  unfold sourceProgress at h
  split_ifs at h <;> obtain rfl := Option.some.inj h <;> rfl

theorem sourceProgress_final (h : op.sourceProgress epoch lsn bytes limit = some progress)
    (hp : progress.final = some p) : op.phase = .fencing ∧ p = ⟨epoch, lsn⟩ := by
  unfold sourceProgress at h
  split_ifs at h with h1 h2 h3 h4 h5 <;> cases h
  · cases hp
  · cases hp
  · exact ⟨h3.1, (Option.some.inj hp).symm⟩
  · exact ⟨h4.1, (Option.some.inj hp).symm⟩
  · cases hp

theorem leaderProgress_bare (h : op.leaderProgress = some progress) :
    progress.held = none ∧ progress.final = none := by
  unfold leaderProgress at h
  split at h
  · cases h
    exact ⟨rfl, rfl⟩
  · cases h
    exact ⟨rfl, rfl⟩
  · split at h
    · split_ifs at h
      cases h
      exact ⟨rfl, rfl⟩
    · cases h
  · cases h
    exact ⟨rfl, rfl⟩
  · cases h

theorem destinationProgress_mem (h : progress ∈ op.destinationProgress position) :
    progress.final = none ∧ ∀ q, progress.held = some q → q = position := by
  unfold destinationProgress at h
  split at h
  · obtain rfl := List.mem_singleton.1 h
    exact ⟨rfl, fun q hq => (Option.some.inj hq).symm⟩
  · rcases List.mem_cons.1 h with rfl | h
    · exact ⟨rfl, fun q hq => (Option.some.inj hq).symm⟩
    · obtain rfl := List.mem_singleton.1 h
      exact ⟨rfl, fun q hq => by cases hq⟩
  · split at h
    · split_ifs at h
      · obtain rfl := List.mem_singleton.1 h
        exact ⟨rfl, fun q hq => (Option.some.inj hq).symm⟩
      · obtain rfl := List.mem_singleton.1 h
        exact ⟨rfl, fun q hq => (Option.some.inj hq).symm⟩
      · cases h
    · cases h
  · cases h

section

variable (h : progress ∈ op.progressOf i leader epoch lsn bytes limit position)

include h

theorem progressOf_mem :
    (op.source = some i ∧ op.sourceProgress epoch lsn bytes limit = some progress) ∨
      op.leaderProgress = some progress ∨
      (op.destination = some i ∧ progress ∈ op.destinationProgress position) := by
  unfold progressOf at h
  split at h
  · next hsource =>
      obtain rfl := List.mem_singleton.1 h
      split_ifs at hsource with hi
      exact .inl ⟨hi, hsource⟩
  · split at h
    · next hleader =>
        obtain rfl := List.mem_singleton.1 h
        split_ifs at hleader
        exact .inr (.inl hleader)
    · split_ifs at h with hi
      · exact .inr (.inr ⟨hi, h⟩)
      · cases h

/-- Only the source reports a final position, its own while it is fencing. -/
theorem progressOf_final (hp : progress.final = some p) :
    op.source = some i ∧ op.phase = .fencing ∧ p = ⟨epoch, lsn⟩ := by
  rcases progressOf_mem h with ⟨hi, hs⟩ | hl | ⟨-, hd⟩
  · exact ⟨hi, sourceProgress_final hs hp⟩
  · exact absurd ((leaderProgress_bare hl).2.symm.trans hp) (some_ne_none p).symm
  · exact absurd ((destinationProgress_mem hd).1.symm.trans hp) (some_ne_none p).symm

/-- Only the destination reports a held position, the one it is at. -/
theorem progressOf_held (hp : progress.held = some p) : op.destination = some i ∧ p = position := by
  rcases progressOf_mem h with ⟨-, hs⟩ | hl | ⟨hi, hd⟩
  · exact absurd ((sourceProgress_held hs).symm.trans hp) (some_ne_none p).symm
  · exact absurd ((leaderProgress_bare hl).1.symm.trans hp) (some_ne_none p).symm
  · exact ⟨hi, (destinationProgress_mem hd).2 p hp⟩

end

end CatalogOperation

namespace TransferSystem

variable {W : Type} {sys : TransferSystem W} {w : TransferNet W}
variable {c' : Catalog} {progress : TransferProgress}

theorem Knows.of_pending (hk : sys.Knows c op)
    (he : e ∈ sys.pending c) (hid : op.id = e.1) : op.SameMove e.2 := by
  obtain ⟨-, op', hop', hsame⟩ := hk
  obtain ⟨id, opE⟩ := e
  obtain rfl : op.id = id := hid
  obtain rfl : op' = opE := Option.some.inj (hop'.symm.trans (mem_pending.1 he).1)
  exact hsame

theorem CatalogOk.issued (hok : sys.CatalogOk c) (hk : sys.Knows c op) :
    op.id < c.nextOperationId := by
  obtain ⟨hmoves, op', hop', hsame⟩ := hk
  exact (hok.ids hop' ⟨hsame.kind.trans hmoves.1, hsame.shard.trans hmoves.2⟩).2

theorem Inv.sealed_of_drained (hw : sys.Inv w) (ht : w.ticks i = some ⟨op, .drained⟩)
    (he : e ∈ sys.pending w.catalog) (hid : op.id = e.1) (hsource : e.2.source = some i) :
    sys.Sealed w i ((w.replicas i).ownPosition sys.files) := by
  have hok := hw.ticks i _ ht
  have hprimary : sys.primary w.catalog = some i := (hw.catalog.source e he).symm.trans hsource
  refine ⟨hok.shut ?_ ⟨e, he, hid⟩, hok.idle rfl ⟨e, he, hid⟩,
    ⟨_, (hw.files.good i).now, fun k hk => hw.kept k hk i hprimary⟩, fun k hk hnode => ?_⟩
  · show FenceStage.drained ≠ .seen
    decide
  · exact hnode ▸ hw.acked k hk

theorem Inv.report (hw : sys.Inv w) {leader : Bool} {bytes : Nat}
    (hc : sys.Careful w (.report i leader bytes)) : sys.Inv (sys.report w i leader bytes) := by
  unfold TransferSystem.report
  split
  · next op stage ht =>
      have hok := hw.ticks i _ ht
      simp only
      split_ifs with hfence hfollow
      · exact hw
      · exact hw
      · refine hw.submit (fun m hm => ?_) (fun e he a ha m hm hid p hp => ?_)
          fun e he a b ha hb m hm hid p hp => ?_
        · obtain ⟨progress, -, rfl⟩ := List.mem_map.1 hm
          exact hw.catalog.issued hok.knows
        · obtain ⟨progress, hmem, rfl⟩ := List.mem_map.1 hm
          obtain ⟨hsource, hphase, rfl⟩ := CatalogOperation.progressOf_final hmem hp
          have hsame := hok.knows.of_pending he hid
          obtain rfl : i = a :=
            Option.some.inj (hsource.symm.trans (hsame.source.symm.trans ha))
          -- a source that reports its final position has drained its writers
          obtain rfl : stage = .drained := by
            by_contra hstage
            exact hfence ⟨hsource, hphase, hstage⟩
          exact hw.sealed_of_drained ht he hid ha
        · obtain ⟨progress, hmem, rfl⟩ := List.mem_map.1 hm
          obtain ⟨hdest, rfl⟩ := CatalogOperation.progressOf_held hmem hp
          have hsame := hok.knows.of_pending he hid
          obtain rfl : i = b :=
            Option.some.inj (hdest.symm.trans (hsame.destination.symm.trans hb))
          have horigin := hc _ ht progress hmem (hp.trans_ne (some_ne_none _)) e he
            hid.symm a ha
          exact ⟨horigin, .refl _, _, hw.files.copy horigin⟩
  · exact hw

/-! ## Catalog changes -/

/-- **Nothing is lost.**  What a commit needs gives the destination every
    acknowledged batch. -/
theorem Inv.destination_has (hw : sys.Inv w) (hop : (id, op) ∈ sys.pending w.catalog)
    (hready : op.Ready a)
    (hdest : op.destination = some b) {k : Ack W} (hk : k ∈ w.acked) :
    k.batch ∈ (w.replicas b).image ∧
      (k.node = a → Position.AtMost ⟨k.epoch, k.lsn⟩ (w.replicas b).position) := by
  obtain ⟨final, hfinal, hle⟩ := hready.final
  obtain ⟨hrfinal, hrdurable, hsnap, -⟩ := hw.recorded _ hop
  obtain ⟨durable, hdurable⟩ := Option.ne_none_iff_exists'.1 (hsnap hready.snapshot)
  rw [hdurable, Option.getD_some] at hle
  obtain ⟨epoch, hepoch, m, hm, hmid, hmfinal⟩ := hrfinal final hfinal
  obtain ⟨epoch', hepoch', m', hm', hmid', hmheld⟩ := hrdurable durable hdurable
  obtain rfl : epoch = epoch' := Option.mem_unique hepoch hepoch'
  have hsealed := hw.finals _ hop a hready.source m hm hmid _ hmfinal
  have hheld := hw.helds _ hop a b hready.source hdest m' hm' hmid' _ hmheld
  -- final position, durable position, position of the destination's copy
  have hshort : Position.AtMost ⟨epoch, final⟩ ⟨epoch, durable⟩ := .inr ⟨rfl, hle⟩
  have hmost := hshort.trans hheld.reached
  obtain ⟨d, hd, hbatches⟩ := hsealed.image
  have hbelow : d <+: (w.replicas b).image :=
    (hw.ordered a).le hd (hw.files.copy hheld.origin) hmost
  exact ⟨hbelow.subset (hbatches k hk), fun hnode => (hsealed.last k hk hnode).trans hmost⟩

/-- A changed catalog in which every undecided transfer was undecided before, or
    is new. -/
theorem Inv.setCatalog (hw : sys.Inv w) (hok : sys.CatalogOk c')
    (hwriters : ∀ i, w.writers i ≠ none → sys.primary c' = some i)
    (hkept : ∀ k ∈ w.acked, ∀ a, sys.primary c' = some a → k.batch ∈ (w.replicas a).image)
    (hknows : ∀ op, sys.Knows w.catalog op → sys.Knows c' op)
    (hpend : ∀ e ∈ sys.pending c', (∃ op, (e.1, op) ∈ sys.pending w.catalog ∧ op.SameMove e.2) ∨
      w.catalog.nextOperationId ≤ e.1)
    (hrec : ∀ e ∈ sys.pending c', Recorded w.commands e.1 e.2)
    (hnext : w.catalog.nextOperationId ≤ c'.nextOperationId) :
    sys.Inv { w with catalog := c' } := by
  have hold : ∀ e ∈ sys.pending c', ∀ m ∈ w.commands, m.1 = e.1 →
      ∃ op, (e.1, op) ∈ sys.pending w.catalog ∧ op.SameMove e.2 := by
    intro e he m hm hid
    rcases hpend e he with hsome | hnew
    · exact hsome
    · exact absurd (hid ▸ hw.issued m hm) (not_lt.2 hnew)
  refine ⟨hw.files, hw.ordered, hw.node, hok, hrec,
    fun i c hc e he => hknows _ (hw.views i c hc e he), fun i t ht => ?_, hwriters, hw.shipped,
    hkept, hw.acked, fun m hm => (hw.issued m hm).trans_le hnext,
    fun e he a ha m hm hid p hp => ?_, fun e he a b ha hb m hm hid p hp => ?_⟩
  · have htick := hw.ticks i t ht
    have hsome : (∃ e ∈ sys.pending c', t.op.id = e.1) →
        ∃ e ∈ sys.pending w.catalog, t.op.id = e.1 := by
      rintro ⟨e, he, hid⟩
      rcases hpend e he with ⟨op, hop, -⟩ | hnew
      · exact ⟨(e.1, op), hop, hid⟩
      · exact absurd (hid ▸ hw.catalog.issued htick.knows) (not_lt.2 hnew)
    exact ⟨hknows _ htick.knows, htick.source, fun hs hp => htick.shut hs (hsome hp),
      fun hs hp => htick.idle hs (hsome hp)⟩
  · obtain ⟨op, hop, hsame⟩ := hold e he m hm hid
    exact { hw.finals _ hop a (hsame.source.symm.trans ha) m hm hid p hp with }
  · obtain ⟨op, hop, hsame⟩ := hold e he m hm hid
    exact { hw.helds _ hop a b (hsame.source.symm.trans ha) (hsame.destination.symm.trans hb) m hm
      hid p hp with }

theorem publish_cases (w : TransferNet W) (changed : Except Error Catalog) :
    w.publish changed = w ∨ ∃ next version, changed = .ok next ∧
      w.publish changed = { w with catalog := { next with version } } := by
  unfold TransferNet.publish
  split
  · next next =>
      split
      · next version hversion =>
          split
          · exact .inr ⟨next, version, rfl, rfl⟩
          · exact .inl rfl
      · exact .inl rfl
  · exact .inl rfl

section Applied

variable {c c' : Catalog} {id : Nat} {op op' : CatalogOperation}
variable {o : CatalogOperation}

theorem pending_insert (hops : c'.operations = c.operations.insert id op')
    (he : e ∈ sys.pending c') :
    e = (id, op') ∧ op'.Moves sys.shard ∧ op'.phase.undecided = true ∨
      e.1 ≠ id ∧ e ∈ sys.pending c := by
  obtain ⟨id', opE⟩ := e
  obtain ⟨hget, hmoves, hund⟩ := mem_pending.1 he
  rw [hops, OrdMap.get?_insert] at hget
  split_ifs at hget with hid
  · cases hget
    exact .inl ⟨by rw [hid], hmoves, hund⟩
  · exact .inr ⟨hid, mem_pending.2 ⟨hget, hmoves, hund⟩⟩

theorem Knows.insert (hfound : c.operations.get? id = some op)
    (hops : c'.operations = c.operations.insert id op') (hsame : op.SameMove op')
    (hk : sys.Knows c o) : sys.Knows c' o := by
  obtain ⟨hmoves, found, hget, hmove⟩ := hk
  refine ⟨hmoves, ?_⟩
  rw [hops, OrdMap.get?_insert]
  split_ifs with hid
  · rw [hid, hfound] at hget
    cases hget
    exact ⟨op', rfl, hmove.trans hsame⟩
  · exact ⟨found, hget, hmove⟩

theorem ids_insert (hok : sys.CatalogOk c) (hfound : c.operations.get? id = some op)
    (hops : c'.operations = c.operations.insert id op') (hsame : op.SameMove op')
    (hnext : c'.nextOperationId = c.nextOperationId) {id' : Nat}
    (hget : c'.operations.get? id' = some o) (hmoves : o.Moves sys.shard) :
    o.id = id' ∧ id' < c'.nextOperationId := by
  rw [hnext]
  rw [hops, OrdMap.get?_insert] at hget
  split_ifs at hget with hid
  · cases hget
    obtain ⟨heq, hlt⟩ := hok.ids hfound (hsame.moves.1 hmoves)
    rw [hid, hsame.id]
    exact ⟨heq, hlt⟩
  · exact hok.ids hget hmoves

theorem undecided_of_effect (h : TransferEffect op progress op')
    (hund : op'.phase.undecided = true) : op.phase.undecided = true := by
  cases h with
  | advance hphase | durable hphase => exact hphase
  | snapshot hphase | bootstrapped hphase | final hphase | restart hphase => rw [hphase]; rfl
  | decide hnext => exact absurd (hnext.symm.trans hund) (by decide)

theorem Recorded.effect {commands : List (Nat × TransferProgress)} (hrec : Recorded commands id op)
    (hcmd : (id, progress) ∈ commands)
    (h : TransferEffect op progress op') (hund : op'.phase.undecided = true) :
    Recorded commands id op' := by
  obtain ⟨hfinal, hdurable, hsnap, hfence⟩ := hrec
  cases h with
  | @advance _ next _ hbefore _ =>
    have hnone : op.finalLsn = none := by
      by_contra hsome
      exact hbefore (hfence hsome)
    exact ⟨fun l hl => hfinal l hl, fun l hl => hdurable l hl, hsnap, fun h => absurd hnone h⟩
  | @snapshot epoch lsn hphase =>
    have hnone : op.finalLsn = none := by
      by_contra hsome
      exact absurd (hphase.symm.trans (hfence hsome)) (by decide)
    refine ⟨fun l hl => ?_, fun l hl => ?_, fun _ => some_ne_none _,
      fun h => absurd hnone h⟩
    · exact absurd (hnone.symm.trans hl) (some_ne_none l).symm
    · cases hl
      exact ⟨epoch, rfl, _, hcmd, rfl, rfl⟩
  | @durable _ epoch lsn _ hheld hepoch =>
    refine ⟨hfinal, fun l hl => ?_, fun _ => some_ne_none _, hfence⟩
    cases hl
    exact ⟨epoch, hepoch, _, hcmd, rfl, hheld⟩
  | @bootstrapped epoch lsn _ hepoch =>
    refine ⟨hfinal, fun l hl => ?_, fun _ => some_ne_none _, hfence⟩
    cases hl
    exact ⟨epoch, hepoch, _, hcmd, rfl, rfl⟩
  | @final epoch lsn hphase hepoch =>
    refine ⟨fun l hl => ?_, hdurable, hsnap, fun _ => hphase⟩
    cases hl
    exact ⟨epoch, hepoch, _, hcmd, rfl, rfl⟩
  | @restart epoch lsn hphase =>
    refine ⟨fun l hl => ?_, fun l hl => (by cases hl), fun h => absurd rfl h, fun _ => hphase⟩
    cases hl
    exact ⟨epoch, rfl, _, hcmd, rfl, rfl⟩
  | decide hnext => exact absurd (hnext.symm.trans hund) (by decide)

end Applied

section

variable (hw : sys.Inv w)

include hw

theorem Inv.same_catalog (hplace : sys.primary c' = sys.primary w.catalog)
    (htransfers : sys.transfers c' = sys.transfers w.catalog)
    (hnext : w.catalog.nextOperationId ≤ c'.nextOperationId) :
    sys.Inv { w with catalog := c' } := by
  have hpend : sys.pending c' = sys.pending w.catalog := by
    unfold pending
    rw [htransfers]
  have hget : ∀ {id op}, op.Moves sys.shard →
      (c'.operations.get? id = some op ↔ w.catalog.operations.get? id = some op) := by
    intro id op hmoves
    have hiff : (id, op) ∈ sys.transfers c' ↔ (id, op) ∈ sys.transfers w.catalog := by
      rw [htransfers]
    rw [mem_transfers, mem_transfers, and_iff_left hmoves, and_iff_left hmoves] at hiff
    exact hiff
  refine hw.setCatalog ⟨?_, fun h hm => ?_, ?_, ?_, ?_⟩ ?_ ?_ (fun op hk => ?_) (fun e he => ?_) ?_
    hnext
  · rw [hplace]
    exact hw.catalog.placed
  · obtain ⟨heq, hlt⟩ := hw.catalog.ids ((hget hm).1 h) hm
    exact ⟨heq, hlt.trans_le hnext⟩
  · rw [hpend, hplace]
    exact hw.catalog.source
  · rw [hpend, hplace]
    exact hw.catalog.destination
  · rw [hpend]
    exact hw.catalog.unique
  · rw [hplace]
    exact hw.writers
  · rw [hplace]
    exact hw.kept
  · obtain ⟨hmoves, op', hop', hsame⟩ := hk
    exact ⟨hmoves, op', (hget (hsame.moves.2 hmoves)).2 hop', hsame⟩
  · rw [hpend] at he
    exact .inl ⟨e.2, he, .refl _⟩
  · rw [hpend]
    exact hw.recorded

theorem Inv.applied_keep {op' : CatalogOperation}
    (hcmd : (id, progress) ∈ w.commands)
    (hfound : w.catalog.operations.get? id = some op) (heffect : TransferEffect op progress op')
    (hops : c'.operations = w.catalog.operations.insert id op')
    (hnext : c'.nextOperationId = w.catalog.nextOperationId)
    (hplace : sys.primary c' = sys.primary w.catalog) : sys.Inv { w with catalog := c' } := by
  have hsame := heffect.sameMove
  -- each undecided transfer was undecided before, under the same id
  have hpend : ∀ e ∈ sys.pending c', ∃ o, (e.1, o) ∈ sys.pending w.catalog ∧ o.SameMove e.2 := by
    intro e he
    rcases pending_insert hops he with ⟨rfl, hmoves, hund⟩ | ⟨-, he⟩
    · exact ⟨op, mem_pending.2 ⟨hfound, hsame.moves.1 hmoves, undecided_of_effect heffect hund⟩, hsame⟩
    · exact ⟨e.2, he, .refl _⟩
  refine hw.setCatalog ⟨?_, fun h hm => ids_insert hw.catalog hfound hops hsame hnext h hm,
    fun e he => ?_, fun e he => ?_, fun e he e' he' => ?_⟩ ?_ ?_
    (fun o hk => hk.insert hfound hops hsame) (fun e he => .inl (hpend e he)) (fun e he => ?_) hnext.ge
  · rw [hplace]
    exact hw.catalog.placed
  · obtain ⟨o, ho, hmove⟩ := hpend e he
    rw [hplace, hmove.source]
    exact hw.catalog.source _ ho
  · obtain ⟨o, ho, hmove⟩ := hpend e he
    rw [hplace, hmove.destination]
    exact hw.catalog.destination _ ho
  · obtain ⟨o, ho, -⟩ := hpend e he
    obtain ⟨o', ho', -⟩ := hpend e' he'
    exact hw.catalog.unique (e.1, o) ho (e'.1, o') ho'
  · rw [hplace]
    exact hw.writers
  · rw [hplace]
    exact hw.kept
  · rcases pending_insert hops he with ⟨rfl, hmoves, hund⟩ | ⟨-, he⟩
    · have hold := mem_pending.2
        ⟨hfound, hsame.moves.1 hmoves, undecided_of_effect heffect hund⟩
      exact (hw.recorded _ hold).effect hcmd heffect hund
    · exact hw.recorded e he

theorem Inv.commit (hop : (id, op) ∈ sys.pending w.catalog) (hready : op.Ready a)
    (hdest : op.destination = some b)
    (hops : c'.operations = w.catalog.operations.insert id { op with phase := .committed })
    (hnext : c'.nextOperationId = w.catalog.nextOperationId) (hplace : sys.primary c' = some b) :
    sys.Inv { w with catalog := c' } := by
  have hsame : op.SameMove { op with phase := .committed } := ⟨rfl, rfl, rfl, rfl, rfl⟩
  have hfound := (mem_pending.1 hop).1
  have hnone : ∀ e, e ∉ sys.pending c' := by
    intro e he
    rcases pending_insert hops he with ⟨-, -, hund⟩ | ⟨hid, he⟩
    · have hund : false = true := hund
      cases hund
    · exact hid (hw.catalog.unique e he _ hop)
  refine hw.setCatalog ⟨?_, fun h hm => ids_insert hw.catalog hfound hops hsame hnext h hm,
    fun e he => absurd he (hnone e), fun e he => absurd he (hnone e),
    fun e he => absurd he (hnone e)⟩ (fun i hi => ?_) (fun k hk n hn => ?_)
    (fun o hk => hk.insert hfound hops hsame) (fun e he => absurd he (hnone e))
    (fun e he => absurd he (hnone e)) hnext.ge
  · rw [hplace]
    exact some_ne_none b
  · -- the sealed source was the only node that could be writing
    have hprimary : sys.primary w.catalog = some a :=
      (hw.catalog.source _ hop).symm.trans hready.source
    obtain rfl : i = a := Option.some.inj ((hw.writers i hi).symm.trans hprimary)
    obtain ⟨final, hfinal, -⟩ := hready.final
    obtain ⟨e, -, m, hm, hmid, hmfinal⟩ := (hw.recorded _ hop).final final hfinal
    exact absurd (hw.finals _ hop i hready.source m hm hmid _ hmfinal).idle hi
  · obtain rfl : b = n := Option.mem_unique hplace hn
    exact (hw.destination_has hop hready hdest hk).1

theorem Inv.applied {v : Nat} (hcmd : (id, progress) ∈ w.commands)
    (happ : w.catalog.Applied id op progress c') :
    sys.Inv { w with catalog := { c' with version := v } } := by
  obtain ⟨hfound, ⟨op', heffect, hops⟩, hnext, hplacement⟩ := happ
  rcases hplacement sys.shard with hsame | ⟨hkind, hshard, -, a, b, -, hready, hdest, hplace, hops⟩
  · exact hw.applied_keep hcmd hfound heffect hops hnext hsame
  · have hund : op.phase.undecided = true := by
      rw [hready.phase]
      rfl
    exact hw.commit (mem_pending.2 ⟨hfound, ⟨hkind, hshard⟩, hund⟩) hready hdest hops hnext hplace

theorem Inv.apply (id : Nat) (progress : TransferProgress) :
    sys.Inv (TransferSystem.apply w id progress) := by
  unfold TransferSystem.apply
  split_ifs with hcmd
  · rcases publish_cases w (w.catalog.applyTransfer id progress) with hsame | ⟨c', v, happly, heq⟩
    · rw [hsame]
      exact hw
    · rw [heq]
      rcases Catalog.applyTransfer_applied happly with rfl | ⟨op, happ⟩
      · exact hw.same_catalog rfl rfl (le_refl _)
      · exact hw.applied hcmd happ
  · exact hw

theorem Inv.startTransfer (destination : NodeId) :
    sys.Inv (sys.startTransfer w destination) := by
  unfold TransferSystem.startTransfer
  rcases publish_cases w ((w.catalog.startTransfer sys.shard destination).map Prod.snd) with
    hsame | ⟨c', v, hstart, heq⟩
  · rw [hsame]
    exact hw
  · rw [heq]
    cases hstarted : w.catalog.startTransfer sys.shard destination with
    | error e =>
      rw [hstarted] at hstart
      cases hstart
    | ok r =>
      rw [hstarted] at hstart
      obtain rfl := Except.ok.inj hstart
      obtain ⟨set, hplace, hne, hidle, hc'⟩ := Catalog.startTransfer_planned hstarted
      have hprimary : sys.primary w.catalog = some set.primary := by
        rw [primary, hplace, Option.map_some]
      -- no transfer of the shard was under way, so the new one is the only one
      have honly : ∀ e ∈ sys.pending r.2, e = (w.catalog.nextOperationId,
          w.catalog.plannedTransfer sys.shard set destination) := by
        intro e he
        rcases pending_insert (congrArg Catalog.operations hc') he with ⟨rfl, -⟩ | ⟨-, he⟩
        · rfl
        · obtain ⟨hget, hm, hund⟩ := mem_pending.1 he
          refine absurd ⟨?_, hm.2⟩ (hidle _ (OrdMap.mem_values_of_get? hget))
          revert hund
          cases e.2.phase <;> simp [OperationPhase.undecided, OperationPhase.terminal]
      rw [hc'] at honly ⊢
      refine hw.setCatalog ⟨hw.catalog.placed, fun {id' o} hget hm => ?_, fun e he => ?_,
        fun e he => ?_, fun e he e' he' => ?_⟩ hw.writers hw.kept (fun o hk => ?_)
        (fun e he => .inr ?_) (fun e he => ?_) (Nat.le_succ _)
      · have hget : (w.catalog.operations.insert w.catalog.nextOperationId _).get? id' = some o := hget
        rw [OrdMap.get?_insert] at hget
        split_ifs at hget with hid'
        · cases hget
          exact ⟨hid'.symm, hid' ▸ Nat.lt_succ_self _⟩
        · exact (hw.catalog.ids hget hm).imp_right (·.trans (Nat.lt_succ_self _))
      · obtain rfl := honly e he
        exact hprimary.symm
      · obtain rfl := honly e he
        exact ⟨destination, rfl, fun heq => hne (Option.mem_unique hprimary heq)⟩
      · rw [honly e he, honly e' he']
      · obtain ⟨hm, o', hget, hsame⟩ := hk
        have hlt := (hw.catalog.ids hget (hsame.moves.2 hm)).2
        refine ⟨hm, o', ?_, hsame⟩
        show (w.catalog.operations.insert w.catalog.nextOperationId _).get? o.id = some o'
        rw [OrdMap.get?_insert, if_neg hlt.ne, hget]
      · obtain rfl := honly e he
        exact le_rfl
      · obtain rfl := honly e he
        refine ⟨fun l hl => ?_, fun l hl => ?_, fun h => absurd rfl h, fun h => absurd rfl h⟩
        · cases hl
        · cases hl

theorem Inv.otherChange (next : Catalog) : sys.Inv (sys.otherChange w next) := by
  unfold TransferSystem.otherChange
  split_ifs with h
  · rcases publish_cases w (.ok next) with hsame | ⟨c', v, hok, heq⟩
    · rw [hsame]
      exact hw
    · rw [heq]
      obtain rfl := Except.ok.inj hok
      refine hw.same_catalog ?_ h.2.1 h.2.2
      show (next.placements.get? sys.shard).map _ = (w.catalog.placements.get? sys.shard).map _
      rw [h.1]
  · exact hw

end

/-! ## Runs -/

theorem Inv.step (hw : sys.Inv w) {act : TransferAct W} (hc : sys.Careful w act) :
    sys.Inv (sys.step w act) := by
  cases act with
  | plan l term =>
    exact { hw with
      finals := fun e he a ha m hm hid p hp => { hw.finals e he a ha m hm hid p hp with }
      helds := fun e he a b ha hb m hm hid p hp => { hw.helds e he a b ha hb m hm hid p hp with } }
  | applyMap i p =>
    show sys.Inv (if p ∈ w.maps then _ else _)
    split_ifs
    · exact hw.applyMap hc
    · exact hw
  | resume i ok => exact hw.resume i ok
  | stepDown i term =>
    exact hw.setHost_of_catalog rfl rfl fun hopen => .inl (mayOpen_of_stepDown hopen)
  | splitTick i term => exact hw.splitTick hc
  | learn i => exact hw.learn i
  | beginWrite i => exact hw.beginWrite hc
  | commitWrite i batch => exact hw.commitWrite hc
  | endWrite i ok => exact hw.endWrite i ok
  | prepareWrite i batch => exact hw.prepareWrite i batch
  | decideWrite i commit => exact hw.decideWrite hc
  | crash i lost leftOver => exact hw.crash i lost leftOver
  | shutdown i leftOver => exact hw.shutdown i leftOver
  | newLog i => exact hw.setFlags i _ false
  | follow i =>
    show sys.Inv (TransferSystem.follow w i)
    unfold TransferSystem.follow
    split_ifs
    · exact (hw.setFlags i false _).setParked i none
    · exact hw
  | lead i => exact hw.setFlags i true _
  | pull j i maxTxns => exact hw.pull hc
  | bootstrap j i lsn torn => exact hw.bootstrap hc
  | tick i => exact hw.tick i
  | fenceClose i => exact hw.fenceClose hc
  | fenceDrain i => exact hw.fenceDrain i
  | report i leader bytes => exact hw.report hc
  | apply id progress => exact hw.apply id progress
  | startTransfer destination => exact hw.startTransfer destination
  | otherChange next => exact hw.otherChange next

theorem inv_init : sys.Inv sys.init := by
  have hnone : ∀ e, e ∉ sys.transfers sys.catalog := by
    intro e he
    obtain ⟨hmem, hmoves⟩ := List.mem_filter.1 he
    exact sys.fresh e hmem (of_decide_eq_true hmoves)
  have hpend : ∀ e, e ∉ sys.pending sys.catalog := fun e he => hnone e (transfers_of_pending he)
  have hplaced : sys.primary sys.catalog ≠ none := by
    obtain ⟨set, hset⟩ := Option.isSome_iff_exists.1 sys.placed
    unfold primary
    rw [hset]
    exact some_ne_none _
  exact
    { files := ReplicaConfig.inv_init
      ordered := fun _ => Replica.ordered_new sys.growing_files
      node := fun _ => rfl
      catalog :=
        { placed := hplaced
          ids := fun {id op} hget hm => absurd (mem_transfers.2 ⟨hget, hm⟩) (hnone (id, op))
          source := fun e he => absurd he (hpend e)
          destination := fun e he => absurd he (hpend e)
          unique := fun e he => absurd he (hpend e) }
      recorded := fun e he => absurd he (hpend e)
      views := fun i c hc e he => absurd (Option.some.inj hc ▸ he) (hnone e)
      ticks := fun i t ht => by cases ht
      writers := fun i hi => absurd rfl hi
      shipped := fun i x e l hx => by cases hx
      kept := fun k hk => by cases hk
      acked := fun k hk => by cases hk
      issued := fun m hm => by cases hm
      finals := fun e he => absurd he (hpend e)
      helds := fun e he => absurd he (hpend e) }

variable (sys) in
def runs (acts : List (TransferAct W)) : TransferNet W := Machine.run sys.step sys.init acts

/-- **Transfers lose no acknowledged batch.**  In every run of clients, maps, terms,
    restarts, supervisors and catalog commits that keeps to the condition,
    whenever a command makes another node primary, that node's file has every
    batch acknowledged so far, and every batch that the old primary acknowledged
    is at a position that the new one's copy has reached; and while a transfer
    with a recorded final position is undecided, its source has acknowledged
    nothing after that position. -/
theorem transfer_keeps_acknowledged (sys : TransferSystem W) (acts : List (TransferAct W))
    (hc : Machine.Meets sys.step sys.Careful sys.init acts) :
    (∀ id progress a b, sys.primary (sys.runs acts).catalog = some a →
      sys.primary (sys.step (sys.runs acts) (.apply id progress)).catalog = some b → a ≠ b →
        ∀ k ∈ (sys.runs acts).acked, k.batch ∈ ((sys.runs acts).replicas b).image ∧
          (k.node = a →
            Position.AtMost ⟨k.epoch, k.lsn⟩ ((sys.runs acts).replicas b).position)) ∧
    ∀ e ∈ sys.pending (sys.runs acts).catalog, ∀ a epoch lsn, e.2.source = some a →
      e.2.streamEpoch = some epoch → e.2.finalLsn = some lsn →
        ∀ k ∈ (sys.runs acts).acked, k.node = a →
          Position.AtMost ⟨k.epoch, k.lsn⟩ ⟨epoch, lsn⟩ := by
  have hw : sys.Inv (sys.runs acts) :=
    Machine.invariant_run sys.step (fun w a hc h => h.step hc) inv_init hc
  constructor
  · intro id progress a b ha hb hne k hk
    have hb : sys.primary (TransferSystem.apply (sys.runs acts) id progress).catalog = some b := hb
    unfold TransferSystem.apply at hb
    split_ifs at hb with hcmd
    · rcases publish_cases (sys.runs acts) ((sys.runs acts).catalog.applyTransfer id progress) with
        hsame | ⟨c', v, happly, heq⟩
      · rw [hsame] at hb
        exact absurd (Option.mem_unique ha hb) hne
      · rw [heq] at hb
        rcases Catalog.applyTransfer_applied happly with rfl | ⟨op, happ⟩
        · exact absurd (Option.mem_unique ha hb) hne
        · -- only the commit of this shard's transfer changes its primary
          rcases happ.placement sys.shard with
            hsame | ⟨hkind, hshard, -, a', b', ha', hready, hdest, hb', -⟩
          · exact absurd (Option.some.inj (ha.symm.trans (hsame.symm.trans hb))) hne
          · obtain rfl : a' = a := Option.mem_unique ha' ha
            obtain rfl : b' = b := Option.mem_unique hb' hb
            have hund : op.phase.undecided = true := by
              rw [hready.phase]
              rfl
            exact hw.destination_has (mem_pending.2 ⟨happ.found, ⟨hkind, hshard⟩, hund⟩) hready hdest hk
    · exact absurd (Option.mem_unique ha hb) hne
  · intro e he a epoch lsn ha hepoch hfinal k hk hnode
    obtain ⟨epoch', hepoch', m, hm, hmid, hmfinal⟩ := (hw.recorded e he).final lsn hfinal
    obtain rfl : epoch = epoch' := Option.mem_unique hepoch hepoch'
    exact (hw.finals e he a ha m hm hmid _ hmfinal).last k hk hnode

theorem one_shard_fits : 1 < 2 ^ 32 := by decide

/-- Shard 0 is on node 1; node 2 may receive it. -/
def twoNodeCatalog : Catalog :=
  { Catalog.ofMembers .one [(1, ⟨1, 1, "a", .voter, .active, 1, none⟩),
      (2, ⟨2, 1, "b", .voter, .active, 1, none⟩)] [(0, ⟨1, 1, []⟩)] with
    routingEpoch := 0
    compatibility := ⟨1, "3.50.0", 4096, "modulo-v1", "fnv1a-64"⟩
    routing := .moduloV1 ⟨1, Nat.one_pos, one_shard_fits⟩ }

def twoNodes : TransferSystem Nat where
  shard := 0
  shards := 1
  ownership _ := false
  retention := ⟨fun _ => 1, 0⟩
  perShardBytes := 100
  catalog := twoNodeCatalog
  placed := by decide +kernel
  fresh := by decide +kernel

/-- A coordinator's map of `term` reaches node 1. -/
def mapReaches (term : Nat) : List (TransferAct Nat) :=
  [.plan 1 term, .applyMap 1 ((twoNodes.init.hosts 1).plan term)]

def written (batch : Nat) : List (TransferAct Nat) :=
  [.beginWrite 1, .commitWrite 1 batch, .endWrite 1 true]

/-- Node `i` ticks on the latest catalog. -/
def ticked (i : NodeId) (leader : Bool) : List (TransferAct Nat) :=
  [.learn i, .tick i, .report i leader 0]

/-- A transfer up to the point where the source's final position is recorded. -/
def fencedTransfer : List (TransferAct Nat) :=
  List.flatten
    [mapReaches 1, written 7, [.startTransfer 2], ticked 1 true,
      [.apply 1 .beginSnapshot, .follow 2, .bootstrap 2 1 1 none], ticked 2 false,
      [.apply 1 (.snapshotInstalled 1 1)], ticked 2 false,
      [.apply 1 (.catchUp 1 1), .apply 1 .prepare], ticked 1 true,
      [.apply 1 .beginFencing, .learn 1, .tick 1, .fenceClose 1, .fenceDrain 1, .report 1 true 0,
        .apply 1 (.finalLsn 1 1)]]

/-- Without a new map, node 2 takes over with the batch that was acknowledged. -/
theorem fencedTransfer_keeps :
    twoNodes.primary (twoNodes.step (twoNodes.runs (fencedTransfer ++ ticked 2 true))
        (.apply 1 .commit)).catalog = some 2 ∧
      (⟨1, 7, 1, 1⟩ : Ack Nat) ∈ (twoNodes.runs (fencedTransfer ++ ticked 2 true)).acked ∧
      7 ∈ ((twoNodes.runs (fencedTransfer ++ ticked 2 true)).replicas 2).image := by
  have hcommit : twoNodes.primary (twoNodes.step (twoNodes.runs (fencedTransfer ++ ticked 2 true))
      (.apply 1 .commit)).catalog = some 2 := by decide +kernel
  have hacked : (⟨1, 7, 1, 1⟩ : Ack Nat) ∈
      (twoNodes.runs (fencedTransfer ++ ticked 2 true)).acked := by decide +kernel
  refine ⟨hcommit, hacked, ?_⟩
  exact ((transfer_keeps_acknowledged twoNodes (fencedTransfer ++ ticked 2 true)
    (by decide +kernel)).1 1 .commit 1 2 (by decide +kernel) hcommit (by decide) _ hacked).1

/-- The map of a new term reaches the source behind its recorded final position. -/
def reopenedTransfer : List (TransferAct Nat) :=
  fencedTransfer ++ mapReaches 2 ++ written 8 ++ ticked 2 true

/-- The gate is open again, a batch is acknowledged after the final position, and
    the commit makes a node primary whose file lacks it. -/
theorem reopenedTransfer_loses :
    twoNodes.primary (twoNodes.runs reopenedTransfer).catalog = some 1 ∧
      twoNodes.primary (twoNodes.step (twoNodes.runs reopenedTransfer)
        (.apply 1 .commit)).catalog = some 2 ∧
      (⟨1, 8, 1, 2⟩ : Ack Nat) ∈ (twoNodes.runs reopenedTransfer).acked ∧
      ((twoNodes.runs reopenedTransfer).catalog.operations.get? 1).bind (·.finalLsn) = some 1 ∧
      8 ∉ ((twoNodes.runs reopenedTransfer).replicas 2).image := by
  refine ⟨?_, ?_, ?_, ?_, ?_⟩ <;> decide +kernel

end TransferSystem

end Shardlite.Cluster
