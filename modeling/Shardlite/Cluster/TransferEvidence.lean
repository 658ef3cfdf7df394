/-
  Shardlite.Cluster.TransferEvidence

  What a transfer rests on.  Its commit needs a snapshot and a durable position that the
  destination has reported since the stream was last restarted; until then no command of the
  operation touches a placement, and from the fence on none gives the operation up.  Over
  whole runs a shard keeps its placement while its transfer is under way, since no other
  operation may work on it; so the commit moves the shard from where the transfer started,
  and at its end there are as many copies as at its start.
-/
import Shardlite.Cluster.TransferEffect

namespace Shardlite.Cluster

open Shard Replication Function

def ReplicaSet.copies (p : ReplicaSet) : Finset NodeId := insert p.primary p.replicas.toFinset

/-! ## Reports -/

def TransferProgress.isSnapshot : TransferProgress → Bool
  | .snapshotInstalled _ _ | .fencedBootstrap _ _ => true
  | _ => false

/-- The source was restarted into another stream. -/
def OperationProgress.isRestart : OperationProgress → Bool
  | .transfer (.restartFencedSource _ _) => true
  | _ => false

/-- The commands since the source was last restarted, of those that are given newest first. -/
def sinceRestart (commands : List OperationProgress) : List OperationProgress :=
  commands.takeWhile fun progress => !progress.isRestart

/-- Since the last restart a snapshot was reported, and the position that is recorded as durable,
    both of the stream that the operation is in. -/
def Reported (commands : List OperationProgress) (op : CatalogOperation) : Prop :=
  ∃ epoch durable, op.streamEpoch = some epoch ∧ op.durableLsn = some durable ∧
    (∃ report lsn, .transfer report ∈ sinceRestart commands ∧ report.isSnapshot = true ∧
      report.held = some ⟨epoch, lsn⟩) ∧
    ∃ report, .transfer report ∈ sinceRestart commands ∧ report.held = some ⟨epoch, durable⟩

variable {commands : List OperationProgress}
variable {progress : OperationProgress} {op op' : CatalogOperation}

theorem mem_sinceRestart_cons (h : progress.isRestart = false) (x : OperationProgress) :
    x ∈ sinceRestart (progress :: commands) ↔ x = progress ∨ x ∈ sinceRestart commands := by
  simp [sinceRestart, h]

theorem Reported.cons (h : Reported commands op) (hrestart : progress.isRestart = false)
    (hepoch : op'.streamEpoch = op.streamEpoch) (hdurable : op'.durableLsn = op.durableLsn) :
    Reported (progress :: commands) op' := by
  obtain ⟨epoch, durable, he, hd, ⟨snapshot, lsn, hmem, hsnapshot, hheld⟩, report, hmem', hheld'⟩ := h
  exact ⟨epoch, durable, hepoch.trans he, hdurable.trans hd,
    ⟨snapshot, lsn, (mem_sinceRestart_cons hrestart _).2 (.inr hmem), hsnapshot, hheld⟩,
    report, (mem_sinceRestart_cons hrestart _).2 (.inr hmem'), hheld'⟩

/-- A report of a durable position takes the place of the last one. -/
theorem Reported.durable {progress : TransferProgress} {epoch lsn : Nat} (h : Reported commands op)
    (hheld : progress.held = some ⟨epoch, lsn⟩) (hepoch : op.streamEpoch = some epoch)
    (hepoch' : op'.streamEpoch = op.streamEpoch) (hdurable : op'.durableLsn = some lsn) :
    Reported (.transfer progress :: commands) op' := by
  have hrestart : (OperationProgress.transfer progress).isRestart = false := by
    cases progress <;> first | rfl | cases hheld
  obtain ⟨epoch', durable, he, -, ⟨snapshot, lsn', hmem, hsnapshot, hheld'⟩, -⟩ := h
  obtain rfl : epoch' = epoch := Option.mem_unique he hepoch
  exact ⟨epoch', lsn, hepoch'.trans he, hdurable,
    ⟨snapshot, lsn', (mem_sinceRestart_cons hrestart _).2 (.inr hmem), hsnapshot, hheld'⟩,
    progress, (mem_sinceRestart_cons hrestart _).2 (.inl rfl), hheld⟩

theorem reported_snapshot {progress : TransferProgress} {epoch lsn : Nat}
    (hsnapshot : progress.isSnapshot = true)
    (hheld : progress.held = some ⟨epoch, lsn⟩) (hepoch : op'.streamEpoch = some epoch)
    (hdurable : op'.durableLsn = some lsn) : Reported (.transfer progress :: commands) op' := by
  have hrestart : (OperationProgress.transfer progress).isRestart = false := by
    cases progress <;> first | rfl | cases hheld
  have hmem : OperationProgress.transfer progress ∈ sinceRestart (.transfer progress :: commands) :=
    (mem_sinceRestart_cons hrestart _).2 (.inl rfl)
  exact ⟨epoch, lsn, hepoch, hdurable, ⟨progress, lsn, hmem, hsnapshot, hheld⟩, progress, hmem, hheld⟩

theorem TransferMove.reported {progress : TransferProgress} (hmove : TransferMove op progress op')
    (hold : op.snapshotLsn ≠ none → Reported commands op) (hnew : op'.snapshotLsn ≠ none) :
    Reported (.transfer progress :: commands) op' := by
  cases hmove with
  | snapshotInstalled => exact reported_snapshot rfl rfl rfl rfl
  | fencedBootstrap _ hepoch => exact reported_snapshot rfl rfl hepoch rfl
  | catchUp _ hepoch | fencedCatchUp _ hepoch => exact (hold hnew).durable rfl hepoch rfl rfl
  | restart => exact absurd rfl hnew
  | restartAgain _ _ _ _ hsnapshot => exact absurd hsnapshot hnew
  | _ => exact (hold hnew).cons rfl rfl rfl

/-! ## Copies -/

section Copies

variable {p : ReplicaSet} {destination : NodeId}

theorem mem_movedPlacement_replicas {node : NodeId} :
    node ∈ (Catalog.movedPlacement p p.primary destination).replicas ↔
      node = p.primary ∨ node ∈ p.replicas ∧ node ≠ destination := by
  unfold Catalog.movedPlacement
  simp only
  split_ifs with hmem
  · simp only [List.mem_filter, decide_eq_true_eq]
    refine ⟨.inr, ?_⟩
    rintro (rfl | h)
    · simpa using hmem
    · exact h
  · rw [List.mem_insertionSort]
    simp [or_comm]

/-- Where the destination had a copy, the copies are the same. -/
theorem copies_moved (hne : p.primary ≠ destination) (hmem : destination ∈ p.replicas) :
    (Catalog.movedPlacement p p.primary destination).copies = p.copies := by
  ext node
  simp only [ReplicaSet.copies, Finset.mem_insert, List.mem_toFinset, mem_movedPlacement_replicas]
  have hprimary : (Catalog.movedPlacement p p.primary destination).primary = destination := rfl
  rw [hprimary]
  constructor
  · rintro (rfl | rfl | ⟨h, -⟩)
    · exact .inr hmem
    · exact .inl rfl
    · exact .inr h
  · rintro (rfl | h)
    · exact .inr (.inl rfl)
    · by_cases hnode : node = destination
      · exact .inl hnode
      · exact .inr (.inr ⟨h, hnode⟩)

/-- Where it had none, its copy takes the place of the source's. -/
theorem card_copies_dropped (hmem : destination ∉ p.replicas)
    (hapart : p.primary ∉ p.replicas) {dropped : ReplicaSet} (hprimary : dropped.primary = destination)
    (hreplicas : ∀ node, node ∈ dropped.replicas ↔
      node ∈ (Catalog.movedPlacement p p.primary destination).replicas ∧ node ≠ p.primary) :
    dropped.copies.card = p.copies.card := by
  have hsame : dropped.replicas.toFinset = p.replicas.toFinset := by
    ext node
    simp only [List.mem_toFinset, hreplicas, mem_movedPlacement_replicas]
    constructor
    · rintro ⟨h | h, hnode⟩
      · exact absurd h hnode
      · exact h.1
    · intro h
      exact ⟨.inr ⟨h, fun heq => hmem (heq ▸ h)⟩, fun heq => hapart (heq ▸ h)⟩
  rw [ReplicaSet.copies, ReplicaSet.copies, hsame, hprimary,
    Finset.card_insert_of_notMem (by simpa using hmem),
    Finset.card_insert_of_notMem (by simpa using hapart)]

end Copies

/-! ## What a command does to the placements -/

variable {s : ShardId}

/-- A command is for phases in which the operation is at work. -/
theorem OperationProgress.not_terminal {phase : OperationPhase}
    (h : progress.isFor phase = true) : phase.terminal = false := by
  cases progress with
  | transfer progress | split progress =>
    cases progress with
    | abort reason => cases phase <;> first | rfl | cases h
    | _ =>
      obtain rfl := of_decide_eq_true h
      rfl

namespace Catalog

variable {c next : Catalog} {id : Nat} {progress : OperationProgress}

/-- A shard that there is keeps its placement under a command, unless it is the one that a transfer
    at work on it moves or frees. -/
theorem placements_of_apply (h : c.applyProgress id progress = .ok next)
    (hs : s < c.routing.shardCount) :
    next.placements.get? s = c.placements.get? s ∨
      ∃ op op', c.operations.get? id = some op ∧ next.operations = c.operations.insert id op' ∧
        op.ActiveOn s ∧ op.kind = .transfer ∧ op'.SameMove op ∧
        (op'.phase = .committed ∨ op'.phase = .complete) := by
  cases progress with
  | transfer progress =>
    obtain ⟨op, hop, hstep⟩ := applyTransfer_iff.1 h
    split_ifs at hstep
    · cases hstep with
      | move | abort => exact .inl rfl
      | @commit shard source destination generation placement hcommit hplace _ _ =>
        by_cases hshard : s = shard
        · subst hshard
          exact .inr ⟨op, _, hop, rfl, ⟨by rw [hcommit.phase]; rfl, hcommit.shard⟩, hcommit.kind,
            ⟨rfl, rfl, rfl, rfl, rfl⟩, .inl rfl⟩
        · exact .inl ((OrdMap.get?_insert ..).trans (if_neg hshard))
      | @complete placements hkind hphase hcleaned =>
        cases hcleaned with
        | retain => exact .inl rfl
        | @drop shard placement _ hsh hplace =>
          by_cases hshard : s = shard
          · subst hshard
            exact .inr ⟨op, _, hop, rfl, ⟨by rw [hphase]; rfl, hsh⟩, hkind,
              ⟨rfl, rfl, rfl, rfl, rfl⟩, .inr rfl⟩
          · exact .inl ((OrdMap.get?_insert ..).trans (if_neg hshard))
    · exact .inl (congrArg (fun d => d.placements.get? s) hstep.2)
  | split progress =>
    obtain ⟨op, hop, hstep⟩ := applySplit_iff.1 h
    split_ifs at hstep
    · cases hstep with
      | move | abort => exact .inl rfl
      | @commit source owner generation before after placement _ hrouting _ _ _ =>
        -- the new shard is none of those that there are
        refine .inl ((OrdMap.get?_insert ..).trans (if_neg ?_))
        rintro rfl
        rw [hrouting] at hs
        exact absurd hs (lt_irrefl _)
    · exact .inl (congrArg (fun d => d.placements.get? s) hstep.2)

end Catalog

/-! ## A transfer from its start on -/

namespace Deliveries

/-- A transfer of the shard that was started later has moved it. -/
def MovedLater (w : Deliveries) (id : Nat) (shard : ShardId) : Prop :=
  ∃ later op, id < later ∧ w.catalog.operations.get? later = some op ∧ op.kind = .transfer ∧
    op.shard = some shard ∧ w.begun later ≠ none ∧
    (op.phase = .committed ∨ op.phase = .cleaning ∨ op.phase = .complete)

/-- What is known of a transfer that was started in the run, from the placement `start`. -/
structure Tracked (w : Deliveries) (id : Nat) (op : CatalogOperation) (start : ReplicaSet)
    (shard : ShardId) (destination : NodeId) : Prop where
  kind : op.kind = .transfer
  onShard : op.shard = some shard
  fromPrimary : op.source = some start.primary
  toDestination : op.destination = some destination
  moves : start.primary ≠ destination
  apart : start.primary ∉ start.replicas
  retain : op.retainSourceReplica = decide (destination ∈ start.replicas)
  reported : op.phase.undecided = true → op.snapshotLsn ≠ none → Reported (w.accepted id) op
  /-- The shard stays where it was until the commit. -/
  before : op.phase.undecided = true → w.catalog.placements.get? shard = some start
  moved : op.phase = .committed ∨ op.phase = .cleaning →
    w.catalog.placements.get? shard = some (Catalog.movedPlacement start start.primary destination)
  ended : op.phase = .complete →
    (∃ placement, w.catalog.placements.get? shard = some placement ∧
      placement.primary = destination ∧ placement.copies.card = start.copies.card) ∨
    w.MovedLater id shard
  /-- Who works on the shard beside it came later. -/
  later : ∀ id' op', w.catalog.operations.get? id' = some op' → id' ≠ id → op'.ActiveOn shard →
    id < id' ∧ (op'.kind = .transfer → w.begun id' ≠ none)

structure TransferInv (w : Deliveries) : Prop where
  numbered : ∀ id, w.begun id ≠ none → id < w.catalog.nextOperationId
  tracked : ∀ id op start, w.begun id = some start → w.catalog.operations.get? id = some op →
    ∃ shard destination, w.Tracked id op start shard destination

/-! ### Planning -/

variable {w : Deliveries}
variable {new : CatalogOperation}
variable {id : Nat} {shard : ShardId} {start placement : ReplicaSet} {destination : NodeId}

theorem MovedLater.planned (h : w.MovedLater id shard)
    (hinv : w.TransferInv) (op : CatalogOperation) (placement : Option ReplicaSet) :
    (w.withPlanned op placement).MovedLater id shard := by
  obtain ⟨later, o, hlt, ho, hkind, hshard, hbegun, hphase⟩ := h
  have hne : later ≠ w.catalog.nextOperationId := (hinv.numbered later hbegun).ne
  refine ⟨later, o, hlt, (OrdMap.get?_insert ..).trans ((if_neg hne).trans ho), hkind, hshard,
    ?_, hphase⟩
  show update w.begun _ placement later ≠ none
  rw [update_of_ne hne]
  exact hbegun

/-- The operations that there are, when one more is planned. -/
theorem Tracked.planned (h : w.Tracked id op start shard destination) (hinv : w.TransferInv)
    (hbegun : w.begun id ≠ none) {placement : Option ReplicaSet}
    (hnew : new.kind = .transfer → placement ≠ none) :
    (w.withPlanned new placement).Tracked id op start shard destination := by
  have hlt := hinv.numbered id hbegun
  refine { h with
    reported := fun hphase hsnapshot => ?_
    ended := fun hphase => (h.ended hphase).imp_right fun hl => hl.planned hinv new placement
    later := fun id' op' hop' hne hactive => ?_ }
  · show Reported (update w.accepted _ [] id) op
    rw [update_of_ne hlt.ne]
    exact h.reported hphase hsnapshot
  · replace hop' : (w.catalog.operations.insert _ new).get? id' = some op' := hop'
    show id < id' ∧ (op'.kind = .transfer → update w.begun _ placement id' ≠ none)
    rw [OrdMap.get?_insert] at hop'
    split_ifs at hop' with hid'
    · cases hop'
      subst hid'
      rw [update_self]
      exact ⟨hlt, hnew⟩
    · rw [update_of_ne hid']
      exact h.later id' op' hop' hne hactive

theorem tracked_new (hwf : w.catalog.WellFormed)
    (hplace : w.catalog.placements.get? shard = some placement)
    (hne : placement.primary ≠ destination)
    (hfree : ∀ op ∈ w.catalog.operations.values, ¬ op.ActiveOn shard) :
    (w.withPlanned (w.catalog.plannedTransfer shard placement destination) (some placement)).Tracked
      w.catalog.nextOperationId (w.catalog.plannedTransfer shard placement destination) placement
      shard destination where
  kind := rfl
  onShard := rfl
  fromPrimary := rfl
  toDestination := rfl
  moves := hne
  apart hmem :=
    ((Catalog.validatePlacement_iff.1 (hwf.placements shard placement hplace)).2.2 _ hmem).1 rfl
  retain := rfl
  reported _ hsnapshot := absurd rfl hsnapshot
  before _ := hplace
  moved hphase := absurd hphase (by simp [Catalog.plannedTransfer])
  ended hphase := absurd hphase (by simp [Catalog.plannedTransfer])
  later id' op' hop' hne' hactive := by
    replace hop' : (w.catalog.operations.insert _ _).get? id' = some op' := hop'
    rw [OrdMap.get?_insert, if_neg hne'] at hop'
    exact absurd hactive (hfree op' (OrdMap.mem_values_of_get? hop'))

theorem TransferInv.planned (hinv : w.TransferInv) {placement : Option ReplicaSet}
    (hnew : new.kind = .transfer → placement ≠ none)
    (htracked : ∀ start, placement = some start → ∃ shard destination,
      (w.withPlanned new placement).Tracked w.catalog.nextOperationId new start shard destination) :
    (w.withPlanned new placement).TransferInv where
  numbered id hbegun := by
    replace hbegun : update w.begun w.catalog.nextOperationId placement id ≠ none := hbegun
    show id < w.catalog.nextOperationId + 1
    by_cases hid : id = w.catalog.nextOperationId
    · omega
    · rw [update_of_ne hid] at hbegun
      exact Nat.lt_succ_of_lt (hinv.numbered id hbegun)
  tracked id op start hbegun hop := by
    replace hbegun : update w.begun w.catalog.nextOperationId placement id = some start :=
      hbegun
    replace hop : (w.catalog.operations.insert _ new).get? id = some op := hop
    rw [OrdMap.get?_insert] at hop
    by_cases hid : id = w.catalog.nextOperationId
    · subst hid
      rw [update_self] at hbegun
      rw [if_pos rfl] at hop
      cases hop
      exact htracked start hbegun
    · rw [update_of_ne hid] at hbegun
      rw [if_neg hid] at hop
      obtain ⟨shard, destination, h⟩ := hinv.tracked id op start hbegun hop
      exact ⟨shard, destination, h.planned hinv (by simp [hbegun]) hnew⟩

/-! ### Commands to other operations -/

section Other

variable {target : Nat} {progress : OperationProgress} {next : Catalog}

theorem decided_of_move (h : OperationMove op progress op') (hkind : op.kind = .transfer)
    (hphase : op.phase = .committed ∨ op.phase = .cleaning ∨ op.phase = .complete) :
    op'.phase = .committed ∨ op'.phase = .cleaning ∨ op'.phase = .complete := by
  cases h with
  | transfer _ hmove =>
    cases hmove with
    | beginCleanup => exact .inr (.inl rfl)
    | complete => exact .inr (.inr rfl)
    | commit => exact .inl rfl
    | _ h => simp [h] at hphase
  | split hk _ => exact absurd (hkind.symm.trans hk) (by simp)
  | abort _ hmay => rcases hphase with h | h | h <;> simp [h, OperationPhase.mayAbort] at hmay

theorem operation_of_accepted (happly : w.catalog.applyProgress target progress = .ok next)
    (hop' : next.operations.get? id = some op') :
    ∃ op, w.catalog.operations.get? id = some op ∧
      (op' = op ∨ progress.isFor op.phase = true ∧ OperationMove op progress op') := by
  obtain ⟨op, hop, ⟨hfor, moved, hmove, hops⟩ | ⟨-, -, rfl⟩⟩ := Catalog.applyProgress_cases happly
  · rw [hops, OrdMap.get?_insert] at hop'
    split_ifs at hop' with hid
    · cases hop'
      exact ⟨op, hid ▸ hop, .inr ⟨hfor, hmove⟩⟩
    · exact ⟨op', hop', .inl rfl⟩
  · exact ⟨op', hop', .inl rfl⟩

theorem active_of_accepted
    (h : op' = op ∨ progress.isFor op.phase = true ∧ OperationMove op progress op')
    (hactive : op'.ActiveOn s) : op.ActiveOn s ∧ op'.kind = op.kind := by
  rcases h with rfl | ⟨hfor, hmove⟩
  · exact ⟨hactive, rfl⟩
  · exact ⟨⟨OperationProgress.not_terminal hfor, hmove.shard ▸ hactive.2⟩, hmove.kind⟩

theorem MovedLater.accepted (h : w.MovedLater id shard)
    (happly : w.catalog.applyProgress target progress = .ok next) :
    (w.withAccepted target progress next).MovedLater id shard := by
  obtain ⟨later, op, hlt, hop, hkind, hshard, hbegun, hphase⟩ := h
  obtain ⟨op₀, hop₀, ⟨-, moved, hmove, hops⟩ | ⟨-, -, rfl⟩⟩ := Catalog.applyProgress_cases happly
  · by_cases hid : later = target
    · subst hid
      cases hop.symm.trans hop₀
      refine ⟨later, moved, hlt, ?_, hmove.kind.trans hkind, hmove.shard.trans hshard, hbegun,
        decided_of_move hmove hkind hphase⟩
      show next.operations.get? later = some moved
      rw [hops, OrdMap.get?_insert, if_pos rfl]
    · refine ⟨later, op, hlt, ?_, hkind, hshard, hbegun, hphase⟩
      show next.operations.get? later = some op
      rw [hops, OrdMap.get?_insert, if_neg hid, hop]
  · exact ⟨later, op, hlt, hop, hkind, hshard, hbegun, hphase⟩

theorem Tracked.other (h : w.Tracked id op start shard destination)
    (hwf : w.catalog.WellFormed) (hop : w.catalog.operations.get? id = some op) (hne : id ≠ target)
    (happly : w.catalog.applyProgress target progress = .ok next) :
    (w.withAccepted target progress next).Tracked id op start shard destination := by
  have hlt : shard < w.catalog.routing.shardCount := by
    have hkind := hwf.kinds id op hop
    unfold Catalog.validateKind at hkind
    simp only [h.kind] at hkind
    obtain ⟨s, _, _, hs, -, -, -, hlt, -⟩ := Catalog.validateTransfer_iff.1 hkind
    exact Option.mem_unique hs h.onShard ▸ hlt
  have hplacements := Catalog.placements_of_apply happly hlt
  -- while it is at work, no other operation touches the shard
  have hkept : op.phase.terminal = false →
      next.placements.get? shard = w.catalog.placements.get? shard := by
    intro hterm
    rcases hplacements with hsame | ⟨op₂, -, hop₂, -, hactive, -⟩
    · exact hsame
    · exact absurd (hwf.exclusive _ _ _ _ shard hop hop₂ ⟨hterm, h.onShard⟩ hactive) hne
  refine { h with
    reported := fun hphase hsnapshot => ?_
    before := fun hphase => (hkept ?_).trans (h.before hphase)
    moved := fun hphase => (hkept ?_).trans (h.moved hphase)
    ended := fun hphase => ?_
    later := fun id' op' hop' hid' hactive => ?_ }
  · show Reported (update w.accepted target _ id) op
    rw [update_of_ne hne]
    exact h.reported hphase hsnapshot
  · cases hp : op.phase <;> simp_all [OperationPhase.undecided, OperationPhase.terminal]
  · rcases hphase with hp | hp <;> simp [hp, OperationPhase.terminal]
  · rcases hplacements with hsame | ⟨op₂, op₂', hop₂, hops, hactive, hkind, hmove, hdone⟩
    · rcases h.ended hphase with ⟨placement, hplace, hrest⟩ | hlater
      · exact .inl ⟨placement, hsame.trans hplace, hrest⟩
      · exact .inr (hlater.accepted happly)
    · obtain ⟨hid, hbegun⟩ := h.later target op₂ hop₂ hne.symm hactive
      refine .inr ⟨target, op₂', hid, ?_, hmove.kind.symm.trans hkind,
        hmove.shard.symm.trans hactive.2, hbegun hkind, ?_⟩
      · show next.operations.get? target = some op₂'
        rw [hops, OrdMap.get?_insert, if_pos rfl]
      · rcases hdone with hp | hp
        · exact .inl hp
        · exact .inr (.inr hp)
  · obtain ⟨before, hbefore, hcase⟩ := operation_of_accepted happly hop'
    obtain ⟨hactive', hkind⟩ := active_of_accepted hcase hactive
    obtain ⟨hid, hbegun⟩ := h.later id' before hbefore hid' hactive'
    exact ⟨hid, fun hk => hbegun (hkind ▸ hk)⟩

end Other

/-! ### Commands to the transfer itself -/

section Own

variable {id : Nat} {op : CatalogOperation} {start : ReplicaSet} {shard : ShardId}
  {destination : NodeId} {progress : OperationProgress} {next : Catalog}

section

variable (h : w.Tracked id op start shard destination)

include h

theorem Tracked.ignored
    (hfor : progress.isFor op.phase = false) (happlied : progress.alreadyApplied op.phase = true) :
    (w.withAccepted id progress w.catalog).Tracked id op start shard destination := by
  refine { h with
    reported := fun hphase hsnapshot => ?_
    ended := fun hphase => h.ended hphase
    later := h.later }
  have hrestart : progress.isRestart = false := by
    cases progress with
    | split progress => rfl
    | transfer progress =>
      cases progress with
      | restartFencedSource epoch lsn =>
        -- it would be for the only phase in which it could be ignored before the decision
        cases hp : op.phase <;> simp_all [OperationPhase.undecided, OperationProgress.isFor,
          OperationProgress.alreadyApplied, TransferProgress.isFor, TransferProgress.target,
          TransferProgress.alreadyApplied, TransferProgress.rank]
      | _ => rfl
  show Reported (update w.accepted id _ id) op
  rw [update_self]
  exact (h.reported hphase hsnapshot).cons hrestart rfl rfl

/-- Others at work on the shard are not touched by the transfer's own commands. -/
theorem Tracked.later_own
    (hops : next.operations = w.catalog.operations.insert id op') (id' : Nat) (o : CatalogOperation)
    (ho : next.operations.get? id' = some o) (hne : id' ≠ id) (hactive : o.ActiveOn shard) :
    id < id' ∧ (o.kind = .transfer → w.begun id' ≠ none) := by
  rw [hops, OrdMap.get?_insert, if_neg hne] at ho
  exact h.later id' o ho hne hactive

theorem Tracked.move {progress : TransferProgress}
    (hmove : TransferMove op progress op')
    (hplain : progress.places = false) :
    (w.withAccepted id (.transfer progress) (w.catalog.setOperation id op')).Tracked id op' start
      shard destination := by
  have hbefore : op'.phase.undecided = true → op.phase.undecided = true := by
    intro hund
    cases hmove with
    | beginCleanup | complete => cases hund
    | _ hphase => rw [hphase]; rfl
  have hmoved : op'.phase = .committed ∨ op'.phase = .cleaning → op.phase = .committed := by
    intro hphase
    cases hmove with
    | commit => cases hplain
    | beginCleanup hp => exact hp
    | beginSnapshot | snapshotInstalled | prepare | beginFencing | complete => simp at hphase
    | catchUp hp | finalLsn hp | restart hp | restartAgain hp | fencedBootstrap hp
    | fencedCatchUp hp => simp [hp] at hphase
  have hended : op'.phase ≠ .complete := by
    intro hphase
    cases hmove with
    | complete => cases hplain
    | beginSnapshot | snapshotInstalled | prepare | beginFencing | beginCleanup | commit =>
      simp at hphase
    | catchUp hp | finalLsn hp | restart hp | restartAgain hp | fencedBootstrap hp
    | fencedCatchUp hp => simp [hp] at hphase
  have hreported : op'.phase.undecided = true → op'.snapshotLsn ≠ none →
      Reported ((w.withAccepted id (.transfer progress) (w.catalog.setOperation id op')).accepted id)
        op' := by
    intro hund hsnapshot
    show Reported (update w.accepted id _ id) op'
    rw [update_self]
    exact hmove.reported (h.reported (hbefore hund)) hsnapshot
  have hsame : op'.kind = op.kind ∧ op'.shard = op.shard ∧ op'.source = op.source ∧
      op'.destination = op.destination ∧ op'.retainSourceReplica = op.retainSourceReplica := by
    cases hmove <;> exact ⟨rfl, rfl, rfl, rfl, rfl⟩
  obtain ⟨hkind, hshard, hsource, hdest, hretain⟩ := hsame
  exact {
    kind := hkind.trans h.kind
    onShard := hshard.trans h.onShard
    fromPrimary := hsource.trans h.fromPrimary
    toDestination := hdest.trans h.toDestination
    moves := h.moves
    apart := h.apart
    retain := hretain.trans h.retain
    reported := hreported
    before := fun hund => h.before (hbefore hund)
    moved := fun hphase => h.moved (.inl (hmoved hphase))
    ended := fun hphase => absurd hphase hended
    later := h.later_own rfl }

theorem Tracked.commit {source dest : NodeId}
    {generation : Nat} (hop : Catalog.CommitsTransfer op s source dest generation)
    (hplace : w.catalog.placements.get? s = some placement) :
    (w.withAccepted id (.transfer .commit)
      { w.catalog.setOperation id { op with phase := .committed } with
        placements := w.catalog.placements.insert s
          (Catalog.movedPlacement placement source dest) }).Tracked id
      { op with phase := .committed } start shard destination := by
  obtain rfl : shard = s := Option.mem_unique h.onShard hop.shard
  obtain rfl : start.primary = source := Option.mem_unique h.fromPrimary hop.source
  obtain rfl : destination = dest := Option.mem_unique h.toDestination hop.destination
  have hstart : start = placement :=
    Option.some.inj ((h.before (by rw [hop.phase]; rfl)).symm.trans hplace)
  subst hstart
  exact { h with
    reported := fun hund => absurd hund (by simp [OperationPhase.undecided])
    before := fun hund => absurd hund (by simp [OperationPhase.undecided])
    moved := fun _ => (OrdMap.get?_insert ..).trans (if_pos rfl)
    ended := fun hphase => absurd hphase (by simp)
    later := h.later_own rfl }

/-- The last step leaves as many copies as there were at the start. -/
theorem Tracked.complete {placements : OrdMap ShardId ReplicaSet} (hphase : op.phase = .cleaning)
    (hcleaned : w.catalog.Cleaned op placements) :
    (w.withAccepted id (.transfer .complete)
      { w.catalog.setOperation id { op with phase := .complete } with placements }).Tracked id
      { op with phase := .complete } start shard destination := by
  have hmoved := h.moved (.inr hphase)
  have hend : ∃ placement, placements.get? shard = some placement ∧
      placement.primary = destination ∧ placement.copies.card = start.copies.card := by
    cases hcleaned with
    | retain hretain =>
      have hmem : destination ∈ start.replicas := by simpa [h.retain] using hretain
      exact ⟨_, hmoved, rfl, congrArg Finset.card (copies_moved h.moves hmem)⟩
    | @drop s placement hretain hs hplace =>
      obtain rfl : shard = s := Option.mem_unique h.onShard hs
      cases hmoved.symm.trans hplace
      have hmem : destination ∉ start.replicas := by simpa [h.retain] using hretain
      refine ⟨_, (OrdMap.get?_insert ..).trans (if_pos rfl), rfl, ?_⟩
      refine card_copies_dropped hmem h.apart rfl fun node => ?_
      simp [h.fromPrimary]
  exact { h with
    reported := fun hund => absurd hund (by simp [OperationPhase.undecided])
    before := fun hund => absurd hund (by simp [OperationPhase.undecided])
    moved := fun hp => absurd hp (by simp)
    ended := fun _ => .inl hend
    later := h.later_own rfl }

theorem Tracked.abort (reason : String)
    (progress : OperationProgress) :
    (w.withAccepted id progress (w.catalog.setOperation id
      { op with phase := .aborted, lastError := some reason })).Tracked id
      { op with phase := .aborted, lastError := some reason } start shard destination :=
  { h with
    reported := fun hund => absurd hund (by simp [OperationPhase.undecided])
    before := fun hund => absurd hund (by simp [OperationPhase.undecided])
    moved := fun hp => absurd hp (by simp)
    ended := fun hp => absurd hp (by simp)
    later := h.later_own rfl }

theorem Tracked.own (hop : w.catalog.operations.get? id = some op)
    (happly : w.catalog.applyProgress id progress = .ok next)
    (hop' : next.operations.get? id = some op') :
    (w.withAccepted id progress next).Tracked id op' start shard destination := by
  have hset : ∀ {o o' : CatalogOperation} {d : Catalog},
      d.operations = w.catalog.operations.insert id o → d.operations.get? id = some o' → o = o' := by
    intro o o' d hd ho'
    rw [hd, OrdMap.get?_insert, if_pos rfl] at ho'
    exact Option.some.inj ho'
  cases progress with
  | transfer progress =>
    obtain ⟨op₀, hop₀, hstep⟩ := Catalog.applyTransfer_iff.1 happly
    cases hop.symm.trans hop₀
    split_ifs at hstep with hfor
    · cases hstep with
      | move hkind hmove hplain =>
        obtain rfl := hset rfl hop'
        exact h.move hmove hplain
      | commit hcommit hplace _ _ =>
        obtain rfl := hset rfl hop'
        exact h.commit hcommit hplace
      | complete _ hphase hcleaned =>
        obtain rfl := hset rfl hop'
        exact h.complete hphase hcleaned
      | abort _ =>
        obtain rfl := hset rfl hop'
        exact h.abort _ _
    · obtain ⟨happlied, rfl⟩ := hstep
      cases hop.symm.trans hop'
      exact h.ignored (eq_false_of_ne_true hfor) happlied
  | split progress =>
    obtain ⟨op₀, hop₀, hstep⟩ := Catalog.applySplit_iff.1 happly
    cases hop.symm.trans hop₀
    split_ifs at hstep with hfor
    · cases hstep with
      | move hkind _ _ => exact absurd (h.kind.symm.trans hkind) (by simp)
      | commit hcommit _ _ _ _ => exact absurd (h.kind.symm.trans hcommit.kind) (by simp)
      | abort _ =>
        obtain rfl := hset rfl hop'
        exact h.abort _ _
    · obtain ⟨happlied, rfl⟩ := hstep
      cases hop.symm.trans hop'
      exact h.ignored (eq_false_of_ne_true hfor) happlied

end

end Own

/-! ### Every run -/

variable {c next : Catalog}

theorem nextOperationId_of_apply (h : c.applyProgress id progress = .ok next) :
    next.nextOperationId = c.nextOperationId := by
  cases progress with
  | transfer progress =>
    obtain ⟨op, -, hstep⟩ := Catalog.applyTransfer_iff.1 h
    split_ifs at hstep
    · cases hstep <;> rfl
    · rw [hstep.2]
  | split progress =>
    obtain ⟨op, -, hstep⟩ := Catalog.applySplit_iff.1 h
    split_ifs at hstep
    · cases hstep <;> rfl
    · rw [hstep.2]

theorem TransferInv.step {w' : Deliveries} (hinv : w.TransferInv) (hwf : w.catalog.WellFormed)
    (hstep : w.Stepped w') : w'.TransferInv := by
  cases hstep with
  | refused => exact hinv
  | plannedTransfer hplace hne hfree =>
    refine hinv.planned (fun _ => by simp) fun start hstart => ?_
    cases hstart
    exact ⟨_, _, tracked_new hwf hplace hne hfree⟩
  | plannedSplit hkind _ _ =>
    exact hinv.planned (fun h => absurd (hkind.symm.trans h) (by simp)) (by simp)
  | @accepted target progress next happly =>
    refine ⟨fun id hbegun => ?_, fun id op' start hbegun hop' => ?_⟩
    · show id < next.nextOperationId
      rw [nextOperationId_of_apply happly]
      exact hinv.numbered id hbegun
    · obtain ⟨op, hop, hcase⟩ := operation_of_accepted happly hop'
      obtain ⟨shard, destination, h⟩ := hinv.tracked id op start hbegun hop
      refine ⟨shard, destination, ?_⟩
      by_cases hid : id = target
      · subst hid
        exact h.own hop happly hop'
      · obtain ⟨op₀, hop₀, ⟨-, moved, -, hops⟩ | ⟨-, -, rfl⟩⟩ := Catalog.applyProgress_cases happly
        · replace hop' : next.operations.get? id = some op' := hop'
          rw [hops, OrdMap.get?_insert, if_neg hid] at hop'
          cases hop.symm.trans hop'
          exact h.other hwf hop hid happly
        · cases hop.symm.trans hop'
          exact h.other hwf hop hid happly

theorem transferInv (c : Catalog) (hvalid : c.validate = .ok ()) (acts : List DeliveryAct) :
    (run c acts).catalog.WellFormed ∧ (run c acts).TransferInv :=
  run_induction hvalid ⟨fun id h => absurd rfl h, fun id op start h => absurd h (by simp [init])⟩
    (fun _ _ hwf _ hinv hstep => hinv.step hwf hstep) acts

/-- What holds of the transfers in a catalog and its commands. -/
structure TransferSound (w : Deliveries) : Prop where
  /-- The commit succeeds on the evidence that is recorded, and in a transfer that was started in
      the run this was reported since the source was last restarted, in its stream. -/
  evidence : ∀ id next, w.catalog.commitTransfer id = .ok next →
    ∃ op final, w.catalog.operations.get? id = some op ∧ op.snapshotLsn ≠ none ∧
      op.finalLsn = some final ∧ final ≤ op.durableLsn.getD 0 ∧
      (w.begun id ≠ none → ∃ epoch, op.streamEpoch = some epoch ∧
        (∃ report lsn, .transfer report ∈ sinceRestart (w.accepted id) ∧ report.isSnapshot = true ∧
          report.held = some ⟨epoch, lsn⟩) ∧
        ∃ report durable, .transfer report ∈ sinceRestart (w.accepted id) ∧
          report.held = some ⟨epoch, durable⟩ ∧ final ≤ durable)
  /-- It raises the generation, moves the primary and touches no other shard. -/
  moves : ∀ id next, w.catalog.commitTransfer id = .ok next →
    ∃ op shard source destination old new, w.catalog.operations.get? id = some op ∧
      (op.shard = some shard ∧ op.source = some source ∧ op.destination = some destination) ∧
      w.catalog.placements.get? shard = some old ∧ next.placements.get? shard = some new ∧
      new.generation = old.generation + 1 ∧ (old.primary = source ∧ new.primary = destination) ∧
      ∀ s ≠ shard, next.placements.get? s = w.catalog.placements.get? s
  /-- Before the commit no command touches a placement. -/
  early : ∀ id progress next op op', w.catalog.operations.get? id = some op → op.kind = .transfer →
    w.catalog.applyProgress id progress = .ok next → next.operations.get? id = some op' →
    op'.phase ≠ .committed → op'.phase ≠ .cleaning → op'.phase ≠ .complete →
    next.placements = w.catalog.placements
  /-- From the fence on no command gives the transfer up. -/
  fenced : ∀ id progress next op op', w.catalog.operations.get? id = some op → op.kind = .transfer →
    (op.phase = .fencing ∨ op.phase = .committed ∨ op.phase = .cleaning ∨ op.phase = .complete) →
    w.catalog.applyProgress id progress = .ok next → next.operations.get? id = some op' →
    op'.phase = .fencing ∨ op'.phase = .committed ∨ op'.phase = .cleaning ∨ op'.phase = .complete
  /-- At its end there are as many copies as at its start, and the destination is the primary, until
      a later transfer moves the shard. -/
  ended : ∀ id op start, w.begun id = some start → w.catalog.operations.get? id = some op →
    op.phase = .complete →
    ∃ shard destination, (op.shard = some shard ∧ op.destination = some destination) ∧
      ((∃ placement, w.catalog.placements.get? shard = some placement ∧
        placement.primary = destination ∧ placement.copies.card = start.copies.card) ∨
      w.MovedLater id shard)

theorem commit_evidence (hinv : w.TransferInv) (h : w.catalog.commitTransfer id = .ok next) :
    ∃ op final, w.catalog.operations.get? id = some op ∧ op.snapshotLsn ≠ none ∧
      op.finalLsn = some final ∧ final ≤ op.durableLsn.getD 0 ∧
      (w.begun id ≠ none → ∃ epoch, op.streamEpoch = some epoch ∧
        (∃ report lsn, .transfer report ∈ sinceRestart (w.accepted id) ∧ report.isSnapshot = true ∧
          report.held = some ⟨epoch, lsn⟩) ∧
        ∃ report durable, .transfer report ∈ sinceRestart (w.accepted id) ∧
          report.held = some ⟨epoch, durable⟩ ∧ final ≤ durable) := by
  obtain ⟨op, shard, source, destination, generation, placement, hop, hcommit, -⟩ :=
    Catalog.commitTransfer_iff.1 h
  obtain ⟨final, hfinal, hle⟩ := hcommit.final
  refine ⟨op, final, hop, hcommit.snapshot, hfinal, hle, fun hbegun => ?_⟩
  obtain ⟨start, hstart⟩ := Option.ne_none_iff_exists'.1 hbegun
  obtain ⟨_, _, htracked⟩ := hinv.tracked id op start hstart hop
  have hund : op.phase.undecided = true := by rw [hcommit.phase]; rfl
  obtain ⟨epoch, durable, hepoch, hdurable, hsnapshot, report, hmem, hheld⟩ :=
    htracked.reported hund hcommit.snapshot
  refine ⟨epoch, hepoch, hsnapshot, report, durable, hmem, hheld, ?_⟩
  rw [hdurable] at hle
  exact hle

theorem commit_moves (h : c.commitTransfer id = .ok next) :
    ∃ op shard source destination old new, c.operations.get? id = some op ∧
      (op.shard = some shard ∧ op.source = some source ∧ op.destination = some destination) ∧
      c.placements.get? shard = some old ∧ next.placements.get? shard = some new ∧
      new.generation = old.generation + 1 ∧ (old.primary = source ∧ new.primary = destination) ∧
      ∀ s ≠ shard, next.placements.get? s = c.placements.get? s := by
  obtain ⟨op, shard, source, destination, generation, placement, hop, hcommit, hplace, hsame, -, rfl⟩ :=
    Catalog.commitTransfer_iff.1 h
  exact ⟨op, shard, source, destination, placement, _, hop,
    ⟨hcommit.shard, hcommit.source, hcommit.destination⟩, hplace,
    (OrdMap.get?_insert ..).trans (if_pos rfl), rfl, ⟨hsame.2, rfl⟩,
    fun s hs => (OrdMap.get?_insert ..).trans (if_neg hs)⟩

theorem placements_early (hop : c.operations.get? id = some op) (hkind : op.kind = .transfer)
    (h : c.applyProgress id progress = .ok next) (hop' : next.operations.get? id = some op')
    (hcommitted : op'.phase ≠ .committed) (hcomplete : op'.phase ≠ .complete) :
    next.placements = c.placements := by
  have hset : ∀ {o : CatalogOperation} {d : Catalog},
      d.operations = c.operations.insert id o → d.operations.get? id = some op' → o = op' := by
    intro o d hd ho'
    rw [hd, OrdMap.get?_insert, if_pos rfl] at ho'
    exact Option.some.inj ho'
  cases progress with
  | transfer progress =>
    obtain ⟨op₀, hop₀, hstep⟩ := Catalog.applyTransfer_iff.1 h
    split_ifs at hstep
    · cases hstep with
      | move | abort => rfl
      | commit => exact absurd (congrArg (·.phase) (hset rfl hop')).symm hcommitted
      | complete => exact absurd (congrArg (·.phase) (hset rfl hop')).symm hcomplete
    · rw [hstep.2]
  | split progress =>
    obtain ⟨op₀, hop₀, hstep⟩ := Catalog.applySplit_iff.1 h
    cases hop.symm.trans hop₀
    split_ifs at hstep
    · cases hstep with
      | move | abort => rfl
      | commit hcommit => exact absurd (hkind.symm.trans hcommit.kind) (by simp)
    · rw [hstep.2]

theorem fenced_of_apply (hop : c.operations.get? id = some op) (hkind : op.kind = .transfer)
    (hphase : op.phase = .fencing ∨ op.phase = .committed ∨ op.phase = .cleaning ∨ op.phase = .complete)
    (h : c.applyProgress id progress = .ok next) (hop' : next.operations.get? id = some op') :
    op'.phase = .fencing ∨ op'.phase = .committed ∨ op'.phase = .cleaning ∨ op'.phase = .complete := by
  obtain ⟨op₀, hop₀, ⟨-, moved, hmove, hops⟩ | ⟨-, -, rfl⟩⟩ := Catalog.applyProgress_cases h
  · cases hop.symm.trans hop₀
    rw [hops, OrdMap.get?_insert, if_pos rfl] at hop'
    cases hop'
    rcases hphase with hfencing | hdecided
    · cases hmove with
      | transfer _ hmove =>
        cases hmove with
        | commit => exact .inr (.inl rfl)
        | finalLsn | restart | restartAgain | fencedBootstrap | fencedCatchUp => exact .inl hfencing
        | _ hp => exact absurd (hfencing.symm.trans hp) (by simp)
      | split hk _ => exact absurd (hkind.symm.trans hk) (by simp)
      | abort _ hmay => simp [hfencing, OperationPhase.mayAbort] at hmay
    · exact .inr (decided_of_move hmove hkind hdecided)
  · cases hop.symm.trans hop'
    exact hphase

/-- **Transfer evidence.**  From every valid catalog, under every sequence of commands to its
    transfers and splits, in any order and with duplicates. -/
theorem transfers_sound (c : Catalog) (hvalid : c.validate = .ok ()) (acts : List DeliveryAct) :
    (run c acts).TransferSound := by
  obtain ⟨-, hinv⟩ := transferInv c hvalid acts
  exact {
    evidence := fun _ _ h => commit_evidence hinv h
    moves := fun _ _ h => commit_moves h
    early := fun _ _ _ _ _ hop hkind h hop' hcommitted _ hcomplete =>
      placements_early hop hkind h hop' hcommitted hcomplete
    fenced := fun _ _ _ _ _ hop hkind hphase h hop' => fenced_of_apply hop hkind hphase h hop'
    ended := fun id op start hbegun hop hphase => by
      obtain ⟨shard, destination, h⟩ := hinv.tracked id op start hbegun hop
      exact ⟨shard, destination, ⟨h.onShard, h.toDestination⟩, h.ended hphase⟩ }

/-- The shard moves to the second node, whose source restarts while it is fenced. -/
def wholeTransfer : List DeliveryAct :=
  .startTransfer 0 2 :: [.beginSnapshot, .snapshotInstalled 1 3, .catchUp 1 9, .prepare,
    .beginFencing, .finalLsn 1 9, .restartFencedSource 2 9, .fencedBootstrap 2 9, .commit,
    .beginCleanup, .complete].map fun progress => .deliver 1 (.transfer progress)

theorem wholeTransfer_sound :
    ((run twoNodes wholeTransfer).catalog.operations.get? 1).map (·.phase) = some .complete ∧
      (run twoNodes wholeTransfer).TransferSound :=
  ⟨by decide +kernel, transfers_sound twoNodes (by decide +kernel) wholeTransfer⟩

end Deliveries

end Shardlite.Cluster
