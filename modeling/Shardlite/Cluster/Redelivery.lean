/-
  Shardlite.Cluster.Redelivery

  Commands that are delivered again.  A duplicate is recognised by its phase alone: behind
  its phase it changes nothing, but in the phase that it reports for it is taken as news.
  There the operation's evidence may have advanced since, or belong to another stream; then
  the duplicate is refused, or puts older evidence in the place of newer.
-/
import Shardlite.Cluster.Deliveries

namespace Shardlite.Cluster

open Function

open SplitProgress (rank)

/-! ## Phases in order -/

theorem rank_injective : Injective rank := by
  intro a b h
  cases a <;> cases b <;> first | rfl | exact absurd h (by decide)

theorem rank_le_aborted (phase : OperationPhase) : rank phase ≤ rank .aborted := by
  cases phase <;> decide

/-- The order of a transfer's phases is the same, but for one that no transfer is in. -/
theorem rank_le_of_transferRank {a b : OperationPhase} (hne : a ≠ .installing)
    (h : TransferProgress.rank a ≤ TransferProgress.rank b) : rank a ≤ rank b := by
  cases a <;> first | exact absurd rfl hne | (cases b <;> first | decide | exact absurd h (by decide))

theorem transferRank_le_of_rank {a b : OperationPhase} (hne : b ≠ .installing)
    (h : rank a ≤ rank b) : TransferProgress.rank a ≤ TransferProgress.rank b := by
  cases b <;> first | exact absurd rfl hne | (cases a <;> first | decide | exact absurd h (by decide))

namespace OperationProgress

theorem rank_le_target {progress : OperationProgress} {phase : OperationPhase}
    (h : progress.isFor phase = true) : rank phase ≤ rank progress.target := by
  cases progress with
  | transfer progress =>
    cases progress with
    | abort reason => exact rank_le_aborted phase
    | _ =>
      obtain rfl := of_decide_eq_true h
      simp [target, TransferProgress.target, rank]
  | split progress =>
    cases progress with
    | abort reason => exact rank_le_aborted phase
    | _ =>
      obtain rfl := of_decide_eq_true h
      simp [target, SplitProgress.target, rank]

theorem transfer_target_ne (progress : TransferProgress) : progress.target ≠ .installing := by
  cases progress <;> simp [TransferProgress.target]

/-- What the code takes to be applied already leads to no later phase. -/
theorem target_le_of_alreadyApplied {progress : OperationProgress} {phase : OperationPhase}
    (h : progress.alreadyApplied phase = true) : rank progress.target ≤ rank phase := by
  cases progress with
  | transfer progress =>
    simp only [alreadyApplied, TransferProgress.alreadyApplied] at h
    split_ifs at h with haborted
    · exact haborted ▸ rank_le_aborted _
    · exact rank_le_of_transferRank (transfer_target_ne progress) (of_decide_eq_true h)
  | split progress =>
    simp only [alreadyApplied, SplitProgress.alreadyApplied] at h
    split_ifs at h with haborted
    · exact haborted ▸ rank_le_aborted _
    · exact of_decide_eq_true h

theorem isFor_aborted (progress : OperationProgress) : progress.isFor .aborted = false := by
  cases progress with
  | transfer progress | split progress => cases progress <;> rfl

theorem isAbort_iff {progress : OperationProgress} :
    progress.isAbort = true ↔ progress.target = .aborted := by
  cases progress with
  | transfer progress => cases progress <;> simp [isAbort, target, TransferProgress.target]
  | split progress => cases progress <;> simp [isAbort, target, SplitProgress.target]

end OperationProgress

namespace OperationMove

variable {op op' : CatalogOperation} {progress : OperationProgress}

theorem phase (h : OperationMove op progress op') : op'.phase = progress.target := by
  cases h with
  | transfer _ hmove => cases hmove <;> first | rfl | assumption
  | split _ heffect => cases heffect <;> first | rfl | assumption
  | abort habort _ => exact (OperationProgress.isAbort_iff.1 habort).symm

theorem required (h : OperationMove op progress op') :
    op'.splitRequiredNodes = op.splitRequiredNodes := by
  cases h with
  | transfer _ hmove => cases hmove <;> rfl
  | split _ heffect => exact Catalog.required_of_effect heffect
  | abort => rfl

theorem transfer_iff {progress : TransferProgress} (hkind : op.kind = .transfer)
    (habort : (OperationProgress.transfer progress).isAbort = false) :
    OperationMove op (.transfer progress) op' ↔ TransferMove op progress op' := by
  constructor
  · intro h
    cases h with
    | transfer _ hmove => exact hmove
    | abort h _ => exact absurd (habort.symm.trans h) (by simp)
  · exact .transfer hkind

theorem split_iff {progress : SplitProgress} (hkind : op.kind = .split)
    (habort : (OperationProgress.split progress).isAbort = false) :
    OperationMove op (.split progress) op' ↔ SplitEffect op progress op' := by
  constructor
  · intro h
    cases h with
    | split _ heffect => exact heffect
    | abort h _ => exact absurd (habort.symm.trans h) (by simp)
  · exact .split hkind

end OperationMove

/-! ## What was accepted stays behind -/

/-- What a report names is there to be reported. -/
def OperationProgress.Sound (op : CatalogOperation) : OperationProgress → Prop
  | .transfer (.restartFencedSource epoch _) => epoch ≠ 0
  | .split (.replicaInstalled node) | .split (.replicaCleaned node) => node ∈ op.splitRequiredNodes
  | _ => True

/-- The operation has come to where the command leads, and where the command is still for its
    phase, it is one for such an operation. -/
structure Settled (op : CatalogOperation) (progress : OperationProgress) : Prop where
  behind : rank progress.target ≤ rank op.phase
  own : progress.isFor op.phase = true → op.kind = progress.kind ∧ progress.Sound op

variable {op op' : CatalogOperation} {progress earlier : OperationProgress}
variable {c : Catalog}

theorem OperationMove.settled (h : OperationMove op progress op') : Settled op' progress where
  behind := h.phase ▸ le_rfl
  own hfor := by
    cases h with
    | transfer hkind hmove =>
      refine ⟨(OperationMove.transfer hkind hmove).kind.trans hkind, ?_⟩
      cases hmove <;> trivial
    | split hkind heffect =>
      refine ⟨(OperationMove.split hkind heffect).kind.trans hkind, ?_⟩
      cases heffect <;> trivial
    | abort =>
      exact absurd (hfor.symm.trans (progress.isFor_aborted)) (by simp)

theorem Settled.move (hold : Settled op earlier) (h : OperationMove op progress op')
    (hfor : progress.isFor op.phase = true) : Settled op' earlier := by
  have hle : rank op.phase ≤ rank op'.phase := h.phase ▸ OperationProgress.rank_le_target hfor
  refine ⟨hold.behind.trans hle, fun hearlier => ?_⟩
  have hback : rank op'.phase ≤ rank op.phase :=
    (OperationProgress.rank_le_target hearlier).trans hold.behind
  have hphase : op'.phase = op.phase := rank_injective (le_antisymm hback hle)
  obtain ⟨hkind, hsound⟩ := hold.own (hphase ▸ hearlier)
  refine ⟨h.kind.trans hkind, ?_⟩
  unfold OperationProgress.Sound at hsound ⊢
  rw [h.required]
  exact hsound

theorem settled_of_alreadyApplied (hfor : progress.isFor op.phase = false)
    (happlied : progress.alreadyApplied op.phase = true) : Settled op progress :=
  ⟨OperationProgress.target_le_of_alreadyApplied happlied,
    fun h => absurd (hfor.symm.trans h) (by simp)⟩

/-- Every command that an operation has accepted is settled. -/
theorem Deliveries.settled (hvalid : c.validate = .ok ()) (acts : List DeliveryAct) :
    (run c acts).catalog.WellFormed ∧
      ∀ id op progress, (run c acts).catalog.operations.get? id = some op →
        progress ∈ (run c acts).accepted id → Settled op progress := by
  refine run_induction (I := fun w => ∀ id op progress, w.catalog.operations.get? id = some op →
    progress ∈ w.accepted id → Settled op progress) hvalid (by simp [init]) ?_ acts
  intro w w' hwf hwf' hI hstep id op progress hop hmem
  have hplan : ∀ (new : CatalogOperation) (placement : Option ReplicaSet),
      (w.withPlanned new placement).catalog.operations.get? id = some op →
      progress ∈ (w.withPlanned new placement).accepted id → Settled op progress := by
    intro new placement hop hmem
    by_cases hid : id = w.catalog.nextOperationId
    · subst hid
      simp [withPlanned] at hmem
    · replace hop : (w.catalog.operations.insert _ new).get? id = some op := hop
      rw [OrdMap.get?_insert, if_neg hid] at hop
      replace hmem : progress ∈ update w.accepted _ [] id := hmem
      rw [update_of_ne hid] at hmem
      exact hI id op progress hop hmem
  cases hstep with
  | refused => exact hI id op progress hop hmem
  | plannedTransfer | plannedSplit => exact hplan _ _ hop hmem
  | @accepted target delivered next happly =>
    replace hop : next.operations.get? id = some op := hop
    replace hmem : progress ∈ update w.accepted target (delivered :: w.accepted target) id :=
      hmem
    obtain ⟨before, hbefore, ⟨hfor, after, hmove, hops⟩ | ⟨hfor, happlied, rfl⟩⟩ :=
      Catalog.applyProgress_cases happly
    · rw [hops, OrdMap.get?_insert] at hop
      by_cases hid : id = target
      · subst hid
        rw [if_pos rfl] at hop
        cases hop
        rw [update_self] at hmem
        rcases List.mem_cons.1 hmem with rfl | hmem
        · exact hmove.settled
        · exact (hI _ before progress hbefore hmem).move hmove hfor
      · rw [if_neg hid] at hop
        rw [update_of_ne hid] at hmem
        exact hI id op progress hop hmem
    · by_cases hid : id = target
      · subst hid
        cases hbefore.symm.trans hop
        rw [update_self] at hmem
        rcases List.mem_cons.1 hmem with rfl | hmem
        · exact settled_of_alreadyApplied hfor happlied
        · exact hI _ _ progress hop hmem
      · rw [update_of_ne hid] at hmem
        exact hI id op progress hop hmem

/-! ## Evidence -/

/-- A recorded position is kept, or replaced by one that is no lower. -/
def lsnLe : Option Nat → Option Nat → Prop
  | none, _ => True
  | some _, none => False
  | some a, some b => a ≤ b

theorem lsnLe_refl (a : Option Nat) : lsnLe a a := by
  cases a with
  | none => trivial
  | some a => exact le_refl a

theorem lsnLe_some {a : Option Nat} {b : Nat} : lsnLe a (some b) ↔ a.getD 0 ≤ b := by
  cases a with
  | none => simp [lsnLe]
  | some a => rfl

theorem lsnLe_none {a : Option Nat} : lsnLe a none ↔ a = none := by
  cases a with
  | none | some a => simp [lsnLe]

/-- The phase and the recorded evidence are no lower after than before. -/
structure NoLower (op op' : CatalogOperation) : Prop where
  phase : rank op.phase ≤ rank op'.phase
  snapshot : lsnLe op.snapshotLsn op'.snapshotLsn
  durable : lsnLe op.durableLsn op'.durableLsn
  final : lsnLe op.finalLsn op'.finalLsn
  installed : op.splitInstalledNodes ⊆ op'.splitInstalledNodes
  cleaned : op.splitCleanedNodes ⊆ op'.splitCleanedNodes

theorem NoLower.refl (op : CatalogOperation) : NoLower op op :=
  ⟨le_rfl, lsnLe_refl _, lsnLe_refl _, lsnLe_refl _, subset_rfl, subset_rfl⟩

/-- Delivered again, the command succeeds and lowers nothing. -/
def Catalog.Redelivers (c : Catalog) (id : Nat) (op : CatalogOperation) (progress : OperationProgress) :
    Prop :=
  ∃ c' op', c.proposed (fun c => c.applyProgress id progress) = .ok c' ∧
    c'.operations.get? id = some op' ∧ NoLower op op'

/-- The evidence in a report is of the operation's stream, and as new as what is recorded. -/
def OperationProgress.Current (op : CatalogOperation) : OperationProgress → Prop
  | .transfer (.catchUp epoch lsn) =>
    op.phase = .catchingUp → op.streamEpoch = some epoch ∧ op.durableLsn.getD 0 ≤ lsn
  | .transfer (.finalLsn epoch lsn) =>
    op.phase = .fencing → op.streamEpoch = some epoch ∧ op.durableLsn.getD 0 ≤ lsn ∧
      op.finalLsn.getD 0 ≤ lsn
  | .transfer (.restartFencedSource epoch lsn) =>
    op.phase = .fencing → op.snapshotLsn = none ∧
      if op.streamEpoch = some epoch then op.finalLsn = some lsn
      else op.durableLsn = none ∧ op.finalLsn.getD 0 ≤ lsn
  | .transfer (.fencedBootstrap epoch lsn) =>
    op.phase = .fencing → op.streamEpoch = some epoch ∧ op.finalLsn.getD 0 ≤ lsn ∧
      op.snapshotLsn.getD 0 ≤ lsn ∧ op.durableLsn.getD 0 ≤ lsn
  | .transfer (.fencedCatchUp epoch lsn) =>
    op.phase = .fencing → op.streamEpoch = some epoch ∧ op.durableLsn.getD 0 ≤ lsn
  | .split (.replay sequence) => op.phase = .catchingUp → op.durableLsn.getD 0 ≤ sequence
  | _ => True

/-- The phase of an operation in which duplicates are still known. -/
def OperationProgress.Known (phase : OperationPhase) (progress : OperationProgress) : Prop :=
  (phase = .aborted → progress.isAbort = true) ∧
    (phase = .installing → progress.kind = .transfer →
      progress.target = .snapshotting ∨ progress.target = .catchingUp)

/-- The condition under which a duplicate is harmless. -/
def OperationProgress.Repeatable (op : CatalogOperation) (progress : OperationProgress) : Prop :=
  progress.Known op.phase ∧ progress.Current op

namespace Settled

/-- A command that has been accepted is known for a duplicate, in those phases. -/
theorem alreadyApplied_iff (h : Settled op progress) :
    progress.alreadyApplied op.phase = true ↔ progress.Known op.phase := by
  unfold OperationProgress.Known
  by_cases haborted : op.phase = .aborted
  · rw [haborted, OperationProgress.isAbort_iff]
    cases progress <;> simp [OperationProgress.alreadyApplied, OperationProgress.target,
      TransferProgress.alreadyApplied, SplitProgress.alreadyApplied]
  cases progress with
  | split progress =>
    have hbehind : rank progress.target ≤ rank op.phase := h.behind
    simp [OperationProgress.alreadyApplied, SplitProgress.alreadyApplied, haborted, hbehind,
      OperationProgress.kind]
  | transfer progress =>
    simp only [OperationProgress.alreadyApplied, TransferProgress.alreadyApplied, haborted,
      if_false, OperationProgress.kind, OperationProgress.target, false_imp_iff, true_and,
      decide_eq_true_eq, forall_const]
    by_cases hinstalling : op.phase = .installing
    · rw [hinstalling]
      cases progress <;> simp [TransferProgress.target, TransferProgress.rank]
    · have hbehind := transferRank_le_of_rank hinstalling h.behind
      exact iff_of_true hbehind fun h => absurd h hinstalling

theorem not_abort (h : Settled op progress) (hfor : progress.isFor op.phase = true) :
    progress.isAbort = false := by
  by_contra habort
  have hbehind := h.behind
  rw [OperationProgress.isAbort_iff.1 (eq_true_of_ne_false habort)] at hbehind
  have hphase : op.phase = .aborted := rank_injective (le_antisymm (rank_le_aborted _) hbehind)
  rw [hphase, OperationProgress.isFor_aborted] at hfor
  cases hfor

/-- In the phase that it is for, a command that was accepted leaves the operation there. -/
theorem stays (h : Settled op progress) (hfor : progress.isFor op.phase = true)
    (hmove : OperationMove op progress op') : op'.phase = op.phase := by
  rw [hmove.phase]
  exact rank_injective (le_antisymm h.behind (OperationProgress.rank_le_target hfor))

end Settled

/-! ## Delivering again -/

section Again

variable {c c' : Catalog} {id : Nat}

theorem applyProgress_of_move (hop : c.operations.get? id = some op)
    (hmove : OperationMove op progress op') (hstays : op'.phase = op.phase) :
    c.applyProgress id progress = .ok (c.setOperation id op') := by
  cases hmove with
  | @transfer progress _ hkind hmove =>
    refine Catalog.applyTransfer_iff.2 ⟨op, hop, ?_⟩
    rw [if_pos hmove.isFor]
    refine .move hkind hmove ?_
    cases hmove with
    | commit hphase | complete hphase => exact absurd (hstays.trans hphase) (by simp)
    | _ => rfl
  | @split progress _ hkind heffect =>
    refine Catalog.applySplit_iff.2 ⟨op, hop, ?_⟩
    rw [if_pos heffect.isFor]
    refine .move hkind heffect ?_
    rintro rfl
    cases heffect with
    | commit hphase => exact absurd (hstays.trans hphase) (by simp)
  | abort _ hmay =>
    rw [← hstays] at hmay
    exact absurd hmay (by simp [OperationPhase.mayAbort])

theorem validateKind_of_move (hkind : c.validateKind op = .ok ())
    (hmove : OperationMove op progress op') (hstays : op'.phase = op.phase) :
    c.validateKind op' = .ok () := by
  unfold Catalog.validateKind at hkind ⊢
  rw [hmove.kind]
  cases hmove with
  | transfer hk hmove =>
    simp only [hk] at hkind ⊢
    rw [Catalog.validateTransfer_iff] at hkind ⊢
    cases hmove <;> exact hkind
  | split hk heffect =>
    simp only [hk] at hkind ⊢
    obtain ⟨owner, before, after, hok⟩ := Catalog.validateSplit_iff.1 hkind
    refine Catalog.validateSplit_iff.2 ⟨owner, before, after, ?_⟩
    cases heffect with
    | replay => exact { hok with }
    | installed _ hnode =>
      exact { hok with
        installed := Finset.insert_subset hnode hok.installed
        allInstalled := fun h => (hok.allInstalled h).trans (Finset.subset_insert _ _) }
    | cleaned _ hnode =>
      exact { hok with
        cleaned := Finset.insert_subset hnode hok.cleaned
        allCleaned := fun h => (hok.allCleaned h).trans (Finset.subset_insert _ _) }
    | _ hphase => exact absurd (hstays.trans hphase) (by simp)
  | abort _ hmay =>
    rw [← hstays] at hmay
    exact absurd hmay (by simp [OperationPhase.mayAbort])

/-- In the phase that it is for, a command that was accepted succeeds if it has an effect. -/
theorem redelivers_iff_move (hwf : c.WellFormed) (hop : c.operations.get? id = some op)
    (h : Settled op progress) (hfor : progress.isFor op.phase = true) :
    c.Redelivers id op progress ↔
      c.version + 1 < u64Size ∧ ∃ op', OperationMove op progress op' ∧ NoLower op op' := by
  constructor
  · rintro ⟨c', op', hproposed, hop', hno⟩
    obtain ⟨next, happly, hfits, rfl, -⟩ := Catalog.proposed_eq_ok.1 hproposed
    obtain ⟨op₀, hop₀, ⟨-, after, hmove, hops⟩ | ⟨hnot, -⟩⟩ := Catalog.applyProgress_cases happly
    · obtain rfl := Option.mem_unique hop hop₀
      replace hop' : next.operations.get? id = some op' := hop'
      rw [hops, OrdMap.get?_insert, if_pos rfl] at hop'
      obtain rfl := Option.some.inj hop'
      rw [applyProgress_of_move hop hmove (h.stays hfor hmove)] at happly
      obtain rfl := Except.ok.inj happly
      exact ⟨hfits, after, hmove, hno⟩
    · obtain rfl := Option.mem_unique hop hop₀
      exact absurd (hnot.symm.trans hfor) (by simp)
  · rintro ⟨hfits, op', hmove, hno⟩
    have hstays := h.stays hfor hmove
    have hactive : ∀ s, op'.ActiveOn s → op.ActiveOn s := by
      intro s hs
      refine ⟨hstays ▸ hs.1, ?_⟩
      rw [← hs.2]
      exact hmove.shard.symm
    have hset : (c.setOperation id op').WellFormed := by
      refine hwf.setOperation ?_ (validateKind_of_move (hwf.kinds id op hop) hmove hstays) ?_
      · rw [hmove.id]
        exact hwf.ids id op hop
      · intro s k o hs ho hs'
        exact hwf.exclusive k id o op s ho hop hs' (hactive s hs)
    refine ⟨_, op', Catalog.proposed_eq_ok.2 ⟨_, applyProgress_of_move hop hmove hstays, hfits, rfl,
      hset.congr rfl rfl rfl rfl rfl rfl rfl⟩, ?_, hno⟩
    exact (OrdMap.get?_insert ..).trans (if_pos rfl)

theorem redelivers_iff_known (hwf : c.WellFormed) (hop : c.operations.get? id = some op)
    (h : Settled op progress) (hfor : progress.isFor op.phase = false) :
    c.Redelivers id op progress ↔ c.version + 1 < u64Size ∧ progress.Known op.phase := by
  rw [← h.alreadyApplied_iff]
  constructor
  · rintro ⟨c', op', hproposed, -⟩
    obtain ⟨next, happly, hfits, rfl, -⟩ := Catalog.proposed_eq_ok.1 hproposed
    obtain ⟨op₀, hop₀, ⟨hyes, -⟩ | ⟨-, happlied, rfl⟩⟩ := Catalog.applyProgress_cases happly
    · cases hop.symm.trans hop₀
      exact absurd (hfor.symm.trans hyes) (by simp)
    · cases hop.symm.trans hop₀
      exact ⟨hfits, happlied⟩
  · rintro ⟨hfits, happlied⟩
    have happly : c.applyProgress id progress = .ok c := by
      cases progress with
      | transfer progress =>
        refine Catalog.applyTransfer_iff.2 ⟨op, hop, ?_⟩
        rw [if_neg (show ¬ progress.isFor op.phase = true from ne_true_of_eq_false hfor)]
        exact ⟨happlied, rfl⟩
      | split progress =>
        refine Catalog.applySplit_iff.2 ⟨op, hop, ?_⟩
        rw [if_neg (show ¬ progress.isFor op.phase = true from ne_true_of_eq_false hfor)]
        exact ⟨happlied, rfl⟩
    exact ⟨_, op, Catalog.proposed_eq_ok.2 ⟨c, happly, hfits, rfl,
      hwf.congr rfl rfl rfl rfl rfl rfl rfl⟩, hop, .refl op⟩

end Again

namespace OperationProgress

theorem current_of_not_isFor (hfor : progress.isFor op.phase = false) : progress.Current op := by
  cases progress with
  | transfer progress =>
    cases progress <;> first
      | trivial
      | exact fun hphase => absurd hfor (by simp [isFor, TransferProgress.isFor, hphase])
  | split progress =>
    cases progress <;> first
      | trivial
      | exact fun hphase => absurd hfor (by simp [isFor, SplitProgress.isFor, hphase])

theorem known_of_isFor (hfor : progress.isFor op.phase = true) : progress.Known op.phase := by
  refine ⟨fun haborted => ?_, fun hinstalling hkind => ?_⟩
  · rw [haborted, isFor_aborted] at hfor
    cases hfor
  · rw [hinstalling] at hfor
    cases progress with
    | transfer progress => cases progress <;> cases hfor
    | split progress => cases hkind

/-- In its phase, a report has an effect that lowers nothing if its evidence is current. -/
theorem transfer_current_iff {progress : TransferProgress} (h : Settled op (.transfer progress))
    (hfor : progress.isFor op.phase = true) :
    Current op (.transfer progress) ↔ ∃ op', TransferMove op progress op' ∧ NoLower op op' := by
  have hsound := (h.own hfor).2
  have hbehind : rank progress.target ≤ rank op.phase := h.behind
  cases progress with
  | catchUp epoch lsn =>
    have hphase : op.phase = .catchingUp := of_decide_eq_true hfor
    constructor
    · intro hcurrent
      obtain ⟨hepoch, hle⟩ := hcurrent hphase
      exact ⟨_, .catchUp hphase hepoch hle, { NoLower.refl op with durable := lsnLe_some.2 hle }⟩
    · rintro ⟨op', hmove, hno⟩ _
      cases hmove with
      | catchUp _ hepoch hle => exact ⟨hepoch, hle⟩
  | finalLsn epoch lsn =>
    have hphase : op.phase = .fencing := of_decide_eq_true hfor
    constructor
    · intro hcurrent
      obtain ⟨hepoch, hle, hfinal⟩ := hcurrent hphase
      exact ⟨_, .finalLsn hphase hepoch hle, { NoLower.refl op with final := lsnLe_some.2 hfinal }⟩
    · rintro ⟨op', hmove, hno⟩ _
      cases hmove with
      | finalLsn _ hepoch hle => exact ⟨hepoch, hle, lsnLe_some.1 hno.final⟩
  | restartFencedSource epoch lsn =>
    have hphase : op.phase = .fencing := of_decide_eq_true hfor
    constructor
    · intro hcurrent
      obtain ⟨hsnapshot, hrest⟩ := hcurrent hphase
      split_ifs at hrest with hepoch
      · exact ⟨op, .restartAgain hphase hsound hepoch hrest hsnapshot, .refl op⟩
      · exact ⟨_, .restart hphase hsound hepoch, { NoLower.refl op with
          snapshot := lsnLe_none.2 hsnapshot
          durable := lsnLe_none.2 hrest.1
          final := lsnLe_some.2 hrest.2 }⟩
    · rintro ⟨op', hmove, hno⟩ _
      cases hmove with
      | restart _ _ hnew =>
        rw [if_neg hnew]
        exact ⟨lsnLe_none.1 hno.snapshot, lsnLe_none.1 hno.durable, lsnLe_some.1 hno.final⟩
      | restartAgain _ _ hepoch hfinal hsnapshot =>
        rw [if_pos hepoch]
        exact ⟨hsnapshot, hfinal⟩
  | fencedBootstrap epoch lsn =>
    have hphase : op.phase = .fencing := of_decide_eq_true hfor
    constructor
    · intro hcurrent
      obtain ⟨hepoch, hle, hsnapshot, hdurable⟩ := hcurrent hphase
      exact ⟨_, .fencedBootstrap hphase hepoch hle, { NoLower.refl op with
        snapshot := lsnLe_some.2 hsnapshot
        durable := lsnLe_some.2 hdurable }⟩
    · rintro ⟨op', hmove, hno⟩ _
      cases hmove with
      | fencedBootstrap _ hepoch hle =>
        exact ⟨hepoch, hle, lsnLe_some.1 hno.snapshot, lsnLe_some.1 hno.durable⟩
  | fencedCatchUp epoch lsn =>
    have hphase : op.phase = .fencing := of_decide_eq_true hfor
    constructor
    · intro hcurrent
      obtain ⟨hepoch, hle⟩ := hcurrent hphase
      exact ⟨_, .fencedCatchUp hphase hepoch hle, { NoLower.refl op with durable := lsnLe_some.2 hle }⟩
    · rintro ⟨op', hmove, hno⟩ _
      cases hmove with
      | fencedCatchUp _ hepoch hle => exact ⟨hepoch, hle⟩
  | abort reason => exact absurd (h.not_abort hfor) (by simp [isAbort])
  | _ =>
    -- the phase that the command leads to is a later one
    rw [of_decide_eq_true hfor] at hbehind
    exact absurd hbehind (by simp [TransferProgress.target, rank])

theorem split_current_iff {progress : SplitProgress} (h : Settled op (.split progress))
    (hfor : progress.isFor op.phase = true) :
    Current op (.split progress) ↔ ∃ op', SplitEffect op progress op' ∧ NoLower op op' := by
  have hsound := (h.own hfor).2
  have hbehind : rank progress.target ≤ rank op.phase := h.behind
  cases progress with
  | replay sequence =>
    have hphase : op.phase = .catchingUp := of_decide_eq_true hfor
    constructor
    · intro hcurrent
      have hle := hcurrent hphase
      exact ⟨_, .replay hphase hle, { NoLower.refl op with durable := lsnLe_some.2 hle }⟩
    · rintro ⟨op', heffect, hno⟩ _
      cases heffect with
      | replay _ hle => exact hle
  | replicaInstalled node =>
    have hphase : op.phase = .installing := of_decide_eq_true hfor
    exact iff_of_true trivial ⟨_, .installed hphase hsound,
      { NoLower.refl op with installed := Finset.subset_insert _ _ }⟩
  | replicaCleaned node =>
    have hphase : op.phase = .cleaning := of_decide_eq_true hfor
    exact iff_of_true trivial ⟨_, .cleaned hphase hsound,
      { NoLower.refl op with cleaned := Finset.subset_insert _ _ }⟩
  | abort reason => exact absurd (h.not_abort hfor) (by simp [isAbort])
  | _ =>
    rw [of_decide_eq_true hfor] at hbehind
    exact absurd hbehind (by simp [SplitProgress.target, rank])

end OperationProgress

/-- A command that was accepted and is delivered again succeeds and lowers nothing exactly if
    it is repeatable. -/
theorem Settled.redelivers_iff {id : Nat} (h : Settled op progress)
    (hwf : c.WellFormed) (hop : c.operations.get? id = some op) :
    c.Redelivers id op progress ↔ c.version + 1 < u64Size ∧ progress.Repeatable op := by
  cases hfor : progress.isFor op.phase with
  | true =>
    have hknown := OperationProgress.known_of_isFor hfor
    have hkind := (h.own hfor).1
    have hcurrent : progress.Current op ↔ ∃ op', OperationMove op progress op' ∧ NoLower op op' := by
      cases progress with
      | transfer progress =>
        simp only [OperationMove.transfer_iff hkind (h.not_abort hfor)]
        exact OperationProgress.transfer_current_iff h hfor
      | split progress =>
        simp only [OperationMove.split_iff hkind (h.not_abort hfor)]
        exact OperationProgress.split_current_iff h hfor
    rw [redelivers_iff_move hwf hop h hfor, ← hcurrent, OperationProgress.Repeatable]
    exact ⟨fun ⟨hfits, hc⟩ => ⟨hfits, hknown, hc⟩, fun ⟨hfits, _, hc⟩ => ⟨hfits, hc⟩⟩
  | false =>
    have hcurrent := OperationProgress.current_of_not_isFor hfor
    rw [redelivers_iff_known hwf hop h hfor, OperationProgress.Repeatable]
    exact ⟨fun ⟨hfits, hk⟩ => ⟨hfits, hk, hcurrent⟩, fun ⟨hfits, hk, _⟩ => ⟨hfits, hk⟩⟩

/-- **Deliveries that come twice.**  In every catalog that transfers and splits lead to, a command
    that its operation has accepted before is accepted again, and lowers neither phase nor
    evidence, exactly if the operation is not given up since, the command is known in the phase,
    and the evidence that it reports is as new as what is recorded. -/
theorem Deliveries.redelivers_iff_repeatable (c : Catalog) (hvalid : c.validate = .ok ())
    (acts : List DeliveryAct) (id : Nat) (op : CatalogOperation) (progress : OperationProgress)
    (hop : (run c acts).catalog.operations.get? id = some op)
    (haccepted : progress ∈ (run c acts).accepted id) :
    (run c acts).catalog.Redelivers id op progress ↔
      (run c acts).catalog.version + 1 < u64Size ∧ progress.Repeatable op := by
  obtain ⟨hwf, hsettled⟩ := settled hvalid acts
  exact (hsettled id op progress hop haccepted).redelivers_iff hwf hop

/-! ## Runs -/

namespace Deliveries

/-- The shard moves to the second node, which has caught up to 9. -/
def caughtUp : List DeliveryAct :=
  .startTransfer 0 2 :: [.beginSnapshot, .snapshotInstalled 1 3, .catchUp 1 5, .catchUp 1 9].map
    fun progress => .deliver 1 (.transfer progress)

/-- The fenced source restarts into stream 2 and the second node is bootstrapped again; then it
    restarts once more, into stream 3, and the second node is bootstrapped a third time. -/
def restartedTwice : List DeliveryAct :=
  caughtUp ++ [.prepare, .beginFencing, .finalLsn 1 9, .restartFencedSource 2 9, .fencedBootstrap 2 9,
    .restartFencedSource 3 9, .fencedBootstrap 3 9].map fun progress => .deliver 1 (.transfer progress)

theorem caughtUp_redelivers :
    ∃ op, (run twoNodes caughtUp).catalog.operations.get? 1 = some op ∧
      (OperationProgress.transfer (.catchUp 1 9)).Repeatable op ∧
      (run twoNodes caughtUp).catalog.Redelivers 1 op (.transfer (.catchUp 1 9)) := by
  have hfacts : ∃ op ∈ (run twoNodes caughtUp).catalog.operations.get? 1,
      op.phase = .catchingUp ∧ op.streamEpoch = some 1 ∧ op.durableLsn = some 9 := by
    decide +kernel
  obtain ⟨op, hop, hphase, hepoch, hdurable⟩ := hfacts
  have hrepeatable : (OperationProgress.transfer (.catchUp 1 9)).Repeatable op := by
    refine ⟨⟨by simp [hphase], by simp [hphase]⟩, fun _ => ⟨hepoch, ?_⟩⟩
    rw [hdurable]
    exact le_rfl
  refine ⟨op, hop, hrepeatable, ?_⟩
  exact (redelivers_iff_repeatable twoNodes (by decide +kernel) caughtUp 1 op _ hop
    (by decide +kernel)).2 ⟨by decide +kernel, hrepeatable⟩

/-- A report of an earlier position is refused; the restart into stream 2, delivered once more,
    discards what the second node reported in stream 3. -/
theorem duplicates_do_harm :
    twoNodes.validate = .ok () ∧
    [(caughtUp, TransferProgress.catchUp 1 5),
      (restartedTwice, .restartFencedSource 2 9)].Forall fun e =>
        ∃ op, (run twoNodes e.1).catalog.operations.get? 1 = some op ∧
          .transfer e.2 ∈ (run twoNodes e.1).accepted 1 ∧
          ¬ (run twoNodes e.1).catalog.Redelivers 1 op (.transfer e.2) := by
  have hvalid : twoNodes.validate = .ok () := by decide +kernel
  refine ⟨hvalid, ?_, ?_⟩
  · have hfacts : ∃ op ∈ (run twoNodes caughtUp).catalog.operations.get? 1,
        op.phase = .catchingUp ∧ op.durableLsn = some 9 := by
      decide +kernel
    obtain ⟨op, hop, hphase, hdurable⟩ := hfacts
    obtain ⟨hwf, hsettled⟩ := settled hvalid caughtUp
    have hmem : .transfer (.catchUp 1 5) ∈ (run twoNodes caughtUp).accepted 1 := by decide +kernel
    refine ⟨op, hop, hmem, fun h => ?_⟩
    obtain ⟨-, -, hcurrent⟩ := ((hsettled 1 op _ hop hmem).redelivers_iff hwf hop).1 h
    have hle := (hcurrent hphase).2
    rw [hdurable] at hle
    exact absurd hle (by decide)
  · have hfacts : ∃ op ∈ (run twoNodes restartedTwice).catalog.operations.get? 1,
        op.phase = .fencing ∧ op.snapshotLsn = some 9 := by
      decide +kernel
    obtain ⟨op, hop, hphase, hsnapshot⟩ := hfacts
    obtain ⟨hwf, hsettled⟩ := settled hvalid restartedTwice
    have hmem : .transfer (.restartFencedSource 2 9) ∈ (run twoNodes restartedTwice).accepted 1 := by
      decide +kernel
    refine ⟨op, hop, hmem, fun h => ?_⟩
    obtain ⟨-, -, hcurrent⟩ := ((hsettled 1 op _ hop hmem).redelivers_iff hwf hop).1 h
    have hnone := (hcurrent hphase).1
    rw [hsnapshot] at hnone
    cases hnone

end Deliveries

end Shardlite.Cluster
