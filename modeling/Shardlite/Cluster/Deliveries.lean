/-
  Shardlite.Cluster.Deliveries

  A catalog under the commands of its transfers and splits, which may come late, twice and in
  any order.  Each one is proposed and checked; one that is refused changes nothing.  Beside
  the catalog stand the commands that each operation has accepted since it was started, and
  the placement that its shard had then.
-/
import Shardlite.Cluster.TransferStep
import Shardlite.Cluster.SplitRun
import Shardlite.Lib.Machine

namespace Shardlite.Cluster

open Shard Function

inductive OperationProgress where
  | transfer (progress : TransferProgress)
  | split (progress : SplitProgress)
  deriving DecidableEq

namespace OperationProgress

/-- The kind of operation that the command is for. -/
def kind : OperationProgress → OperationKind
  | .transfer _ => .transfer
  | .split _ => .split

def isFor (phase : OperationPhase) : OperationProgress → Bool
  | .transfer progress => progress.isFor phase
  | .split progress => progress.isFor phase

def target : OperationProgress → OperationPhase
  | .transfer progress => progress.target
  | .split progress => progress.target

def alreadyApplied (phase : OperationPhase) : OperationProgress → Bool
  | .transfer progress => progress.alreadyApplied phase
  | .split progress => progress.alreadyApplied phase

/-- The operation is given up, by either kind of command. -/
def isAbort : OperationProgress → Bool
  | .transfer (.abort _) | .split (.abort _) => true
  | _ => false

end OperationProgress

/-- What becomes of an operation under a command that takes effect. -/
inductive OperationMove (op : CatalogOperation) : OperationProgress → CatalogOperation → Prop where
  | transfer {progress : TransferProgress} {op' : CatalogOperation} (hkind : op.kind = .transfer)
      (hmove : TransferMove op progress op') : OperationMove op (.transfer progress) op'
  | split {progress : SplitProgress} {op' : CatalogOperation} (hkind : op.kind = .split)
      (heffect : SplitEffect op progress op') : OperationMove op (.split progress) op'
  | abort {progress : OperationProgress} {reason : String} (habort : progress.isAbort = true)
      (hmay : op.phase.mayAbort = true) :
      OperationMove op progress { op with phase := .aborted, lastError := some reason }

namespace OperationMove

variable {op op' : CatalogOperation} {progress : OperationProgress}

section

variable (h : OperationMove op progress op')

include h

theorem kind : op'.kind = op.kind := by
  cases h with
  | transfer _ hmove => cases hmove <;> rfl
  | split _ heffect => cases heffect <;> rfl
  | abort => rfl

theorem id : op'.id = op.id := by
  cases h with
  | transfer _ hmove => cases hmove <;> rfl
  | split _ heffect => cases heffect <;> rfl
  | abort => rfl

theorem shard : op'.shard = op.shard := by
  cases h with
  | transfer _ hmove => cases hmove <;> rfl
  | split _ heffect => cases heffect <;> rfl
  | abort => rfl

end

end OperationMove

namespace Catalog

def applyProgress (c : Catalog) (id : Nat) : OperationProgress → Except Error Catalog
  | .transfer progress => c.applyTransfer id progress
  | .split progress => c.applySplit id progress

variable {c c' : Catalog} {id : Nat} {op : CatalogOperation} {progress : OperationProgress}

/-- A command takes effect on its operation, or finds its own phase behind. -/
theorem applyProgress_cases (h : c.applyProgress id progress = .ok c') :
    ∃ op, c.operations.get? id = some op ∧
      ((progress.isFor op.phase = true ∧
          ∃ op', OperationMove op progress op' ∧ c'.operations = c.operations.insert id op') ∨
        (progress.isFor op.phase = false ∧ progress.alreadyApplied op.phase = true ∧ c' = c)) := by
  cases progress with
  | transfer progress =>
    obtain ⟨op, hfound, hstep⟩ := applyTransfer_iff.1 h
    refine ⟨op, hfound, ?_⟩
    split_ifs at hstep with hfor
    · refine .inl ⟨hfor, ?_⟩
      cases hstep with
      | move hkind hmove _ => exact ⟨_, .transfer hkind hmove, rfl⟩
      | commit hop _ _ _ =>
        obtain ⟨final, hfinal, hle⟩ := hop.final
        exact ⟨_, .transfer hop.kind (.commit hop.phase hop.snapshot hfinal hle), rfl⟩
      | complete hkind hphase _ => exact ⟨_, .transfer hkind (.complete hphase), rfl⟩
      | abort hmay => exact ⟨_, .abort rfl hmay, rfl⟩
    · exact .inr ⟨eq_false_of_ne_true hfor, hstep⟩
  | split progress =>
    obtain ⟨op, hfound, hstep⟩ := applySplit_iff.1 h
    refine ⟨op, hfound, ?_⟩
    split_ifs at hstep with hfor
    · refine .inl ⟨hfor, ?_⟩
      cases hstep with
      | move hkind heffect _ => exact ⟨_, .split hkind heffect, rfl⟩
      | commit hop _ _ _ _ => exact ⟨_, .split hop.kind (.commit hop.phase hop.installed), rfl⟩
      | abort hmay => exact ⟨_, .abort rfl hmay, rfl⟩
    · exact .inr ⟨eq_false_of_ne_true hfor, hstep⟩

/-! ## Planning -/

def withOperation (c : Catalog) (op : CatalogOperation) : Catalog :=
  { c.setOperation c.nextOperationId op with nextOperationId := c.nextOperationId + 1 }

/-- The operation of a transfer as it is planned. -/
def plannedTransfer (c : Catalog) (shard : ShardId) (placement : ReplicaSet) (destination : NodeId) :
    CatalogOperation where
  id := c.nextOperationId
  kind := .transfer
  phase := .planned
  shard := some shard
  source := some placement.primary
  destination := some destination
  expectedGeneration := some placement.generation
  retainSourceReplica := destination ∈ placement.replicas
  createdVersion := c.version

variable {n : Nat}

theorem startTransfer_planned {shard : ShardId} {destination : NodeId}
    (h : c.startTransfer shard destination = .ok (n, c')) :
    ∃ placement, c.placements.get? shard = some placement ∧ placement.primary ≠ destination ∧
      (∀ op ∈ c.operations.values, ¬ op.ActiveOn shard) ∧
      c' = c.withOperation (c.plannedTransfer shard placement destination) := by
  obtain ⟨placement, hplace, h⟩ := bind_eq_ok.1 h
  obtain ⟨member, -, h⟩ := bind_eq_ok.1 h
  obtain ⟨_, -, h⟩ := bind_eq_ok.1 h
  obtain ⟨_, hne, h⟩ := bind_eq_ok.1 h
  obtain ⟨hfree, -, -, rfl⟩ := plan_iff.1 h
  exact ⟨placement, okOr_eq_ok.1 hplace, refuseIf_eq_ok.1 hne, hfree, rfl⟩

theorem startSplit_planned (h : c.startSplit = .ok (n, c')) :
    ∃ op, op.kind = .split ∧ op.phase = .planned ∧ op.id = c.nextOperationId ∧
      c' = c.withOperation op := by
  unfold startSplit at h
  cases hrouting : c.routing with
  | moduloV1 modulo =>
    simp only [hrouting] at h
    exact absurd h (by simp)
  | linearV1 r =>
    simp only [hrouting] at h
    obtain ⟨_, -, h⟩ := bind_eq_ok.1 h
    obtain ⟨_, -, h⟩ := bind_eq_ok.1 h
    obtain ⟨placement, -, h⟩ := bind_eq_ok.1 h
    obtain ⟨_, -, h⟩ := bind_eq_ok.1 h
    obtain ⟨after, -, h⟩ := bind_eq_ok.1 h
    obtain ⟨-, -, -, rfl⟩ := plan_iff.1 h
    exact ⟨_, rfl, rfl, rfl, rfl⟩

end Catalog

/-! ## The catalog and what it has accepted -/

/-- The catalog, with the history of its operations beside it. -/
structure Deliveries where
  catalog : Catalog
  /-- The commands that each operation has accepted since it was started, the newest first. -/
  accepted : Nat → List OperationProgress
  /-- Where the shard of each operation was placed when it was started. -/
  begun : Nat → Option ReplicaSet

inductive DeliveryAct where
  | startTransfer (shard : ShardId) (destination : NodeId)
  | startSplit
  | deliver (id : Nat) (progress : OperationProgress)

namespace Deliveries

def init (c : Catalog) : Deliveries := ⟨c, fun _ => [], fun _ => none⟩

variable (w : Deliveries)

/-- An operation is planned, from where `placement` is. -/
def start (change : Catalog → Except Error (Nat × Catalog))
    (placement : Option ReplicaSet) : Deliveries :=
  match w.catalog.proposed fun c => (change c).map Prod.snd with
  | .ok catalog =>
    { catalog
      accepted := update w.accepted w.catalog.nextOperationId []
      begun := update w.begun w.catalog.nextOperationId placement }
  | .error _ => w

def deliver (id : Nat) (progress : OperationProgress) : Deliveries :=
  match w.catalog.proposed fun c => c.applyProgress id progress with
  | .ok catalog =>
    { w with
      catalog
      accepted := update w.accepted id (progress :: w.accepted id) }
  | .error _ => w

/-- One start or delivery; what the catalog refuses changes nothing. -/
def step : DeliveryAct → Deliveries
  | .startTransfer shard destination =>
    w.start (fun c => c.startTransfer shard destination) (w.catalog.placements.get? shard)
  | .startSplit => w.start (fun c => c.startSplit) none
  | .deliver id progress => w.deliver id progress

def run (c : Catalog) (acts : List DeliveryAct) : Deliveries := Machine.run step (init c) acts

/-! ## One step -/

def withPlanned (op : CatalogOperation) (placement : Option ReplicaSet) : Deliveries where
  catalog := { w.catalog.withOperation op with version := w.catalog.version + 1 }
  accepted := update w.accepted w.catalog.nextOperationId []
  begun := update w.begun w.catalog.nextOperationId placement

def withAccepted (id : Nat) (progress : OperationProgress) (next : Catalog) : Deliveries :=
  { w with
    catalog := { next with version := next.version + 1 }
    accepted := update w.accepted id (progress :: w.accepted id) }

/-- A step plans an operation, or delivers a command, or changes nothing. -/
inductive Stepped (w : Deliveries) : Deliveries → Prop where
  | refused : Stepped w w
  | plannedTransfer {shard : ShardId} {destination : NodeId} {placement : ReplicaSet}
      (hplace : w.catalog.placements.get? shard = some placement)
      (hne : placement.primary ≠ destination)
      (hfree : ∀ op ∈ w.catalog.operations.values, ¬ op.ActiveOn shard) :
      Stepped w (w.withPlanned (w.catalog.plannedTransfer shard placement destination)
        (some placement))
  | plannedSplit {op : CatalogOperation} (hkind : op.kind = .split) (hphase : op.phase = .planned)
      (hid : op.id = w.catalog.nextOperationId) : Stepped w (w.withPlanned op none)
  | accepted {id : Nat} {progress : OperationProgress} {next : Catalog}
      (happly : w.catalog.applyProgress id progress = .ok next) :
      Stepped w (w.withAccepted id progress next)

theorem start_cases (w : Deliveries) (change : Catalog → Except Error (Nat × Catalog))
    (placement : Option ReplicaSet) :
    w.start change placement = w ∨
      ∃ n next, change w.catalog = .ok (n, next) ∧
        ({ next with version := next.version + 1 } : Catalog).WellFormed ∧
        w.start change placement =
          { catalog := { next with version := next.version + 1 }
            accepted := update w.accepted w.catalog.nextOperationId []
            begun := update w.begun w.catalog.nextOperationId placement } := by
  unfold start
  cases hnext : w.catalog.proposed fun c => (change c).map Prod.snd with
  | error e => exact .inl rfl
  | ok catalog =>
    obtain ⟨next, hchange, -, rfl, hwf⟩ := Catalog.proposed_eq_ok.1 hnext
    cases hstart : change w.catalog with
    | error e =>
      rw [hstart] at hchange
      cases hchange
    | ok started =>
      rw [hstart] at hchange
      obtain rfl := Except.ok.inj hchange
      exact .inr ⟨started.1, started.2, rfl, hwf, rfl⟩

/-- **What a step does.**  The catalog after it passed the check, if the one before did. -/
theorem stepped (w : Deliveries) (a : DeliveryAct) (hwf : w.catalog.WellFormed) :
    w.Stepped (w.step a) ∧ (w.step a).catalog.WellFormed := by
  cases a with
  | startTransfer shard destination =>
    rcases start_cases w (fun c => c.startTransfer shard destination)
      (w.catalog.placements.get? shard) with heq | ⟨n, next, hstart, hwf', heq⟩
    · rw [step, heq]
      exact ⟨.refused, hwf⟩
    · obtain ⟨placement, hplace, hne, hfree, rfl⟩ := Catalog.startTransfer_planned hstart
      rw [step, heq, hplace]
      exact ⟨.plannedTransfer hplace hne hfree, hwf'⟩
  | startSplit =>
    rcases start_cases w (fun c => c.startSplit) none with heq | ⟨n, next, hstart, hwf', heq⟩
    · rw [step, heq]
      exact ⟨.refused, hwf⟩
    · obtain ⟨op, hkind, hphase, hid, rfl⟩ := Catalog.startSplit_planned hstart
      rw [step, heq]
      exact ⟨.plannedSplit hkind hphase hid, hwf'⟩
  | deliver id progress =>
    show w.Stepped (w.deliver id progress) ∧ (w.deliver id progress).catalog.WellFormed
    unfold deliver
    cases hnext : w.catalog.proposed fun c => c.applyProgress id progress with
    | error e => exact ⟨.refused, hwf⟩
    | ok catalog =>
      obtain ⟨next, happly, -, rfl, hwf'⟩ := Catalog.proposed_eq_ok.1 hnext
      exact ⟨.accepted happly, hwf'⟩

theorem run_induction {I : Deliveries → Prop} {c : Catalog} (hvalid : c.validate = .ok ())
    (hinit : I (init c))
    (hstep : ∀ w w', w.catalog.WellFormed → w'.catalog.WellFormed → I w → w.Stepped w' → I w')
    (acts : List DeliveryAct) : (run c acts).catalog.WellFormed ∧ I (run c acts) := by
  refine Machine.invariant_run_of_forall step (I := fun w => w.catalog.WellFormed ∧ I w) ?_
    ⟨Catalog.validate_eq_ok_iff.1 hvalid, hinit⟩ acts
  rintro w a ⟨hwf, hI⟩
  obtain ⟨hstepped, hwf'⟩ := stepped w a hwf
  exact ⟨hwf', hstep w _ hwf hwf' hI hstepped⟩

/-- Two nodes, of which the first has the only shard. -/
def twoNodes : Catalog :=
  .ofMembers .one [(1, ⟨1, 1, "a", .voter, .active, 1, none⟩),
    (2, ⟨2, 1, "b", .voter, .active, 1, none⟩)] [(0, ⟨1, 1, []⟩)]

end Deliveries

end Shardlite.Cluster
