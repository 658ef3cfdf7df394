/-
  Shardlite.Storage.Escalation

  How long a log can stay too large.  While passive checkpoints stall, each check
  climbs one step of the ladder and the checks come at most `maxStallBackoff`
  periods apart, so a `TRUNCATE` is tried in time.

  A passive checkpoint that returns an error starts the ladder from the bottom
  again, although it has not drained the log either; a file whose checkpoints keep
  failing never escalates.
-/
import Shardlite.Storage.Checkpoint
import Shardlite.Lib.Machine

namespace Shardlite.Storage

/-- A committed batch: the file, the size of its log, and what becomes of the
    checkpoints that may follow. -/
structure Batch (T : Type) where
  file : ShardFile T := {}
  walBytes : Nat
  attempts : Attempt × Attempt

/-- A passive checkpoint after the batch would leave the log undrained: it stalls, is
    busy or returns an error. -/
def Batch.Undrained {T : Type} (b : Batch T) : Prop :=
  ∀ row ∈ (b.file.walCheckpoint .passive b.attempts.1).1,
    row.busy = true ∨ row.checkpointed < row.logPages

instance {T : Type} (b : Batch T) : Decidable b.Undrained := by
  unfold Batch.Undrained
  infer_instance

namespace Checkpointer

variable {T : Type} (cfg : CheckpointConfig) (c : Checkpointer) (b : Batch T)

/-- The checkpoints that `after_batch` runs. -/
def tried : List CheckpointMode :=
  if c.batchesSinceCheck + 1 < cfg.checkEveryBatches * c.stallBackoff then []
  else if b.walBytes < cfg.softLimitBytes then []
  else
    let row := (b.file.walCheckpoint .passive b.attempts.1).1
    let stalled := row.any fun r => r.busy || decide (r.checkpointed < r.logPages)
    if cfg.stallThreshold ≤ (if stalled then c.consecutiveStalls + 1 else 0) ∧
        cfg.hardLimitBytes ≤ b.walBytes then [.passive, .truncate]
    else [.passive]

def step : Checkpointer := (c.afterBatch cfg b.file b.walBytes b.attempts).1

/-- The log is past the hard limit, and the passive checkpoint, if it is run, does not
    drain it. -/
def Stuck : Prop :=
  cfg.hardLimitBytes ≤ b.walBytes ∧ (.passive ∈ c.tried cfg b → b.Undrained)

/-- A passive checkpoint that runs after the batch does not fail. -/
def Answered : Prop := .passive ∈ c.tried cfg b → b.attempts.1 ≠ .fails

instance : Decidable (c.Stuck cfg b) := inferInstanceAs (Decidable (_ ∧ (_ → _)))

instance : Decidable (c.Answered cfg b) := inferInstanceAs (Decidable (_ → _))

/-- What every run keeps: the multiplier is within its bounds, and the next check is
    still to come. -/
structure Pacing : Prop where
  pos : 0 < c.stallBackoff
  le : c.stallBackoff ≤ cfg.maxStallBackoff
  due : c.batchesSinceCheck < cfg.checkEveryBatches * c.stallBackoff

/-- The batches until a `TRUNCATE` is tried, at most: to the next check, and then a
    longest period for each step of the ladder left. -/
def left : Nat :=
  cfg.checkEveryBatches * c.stallBackoff - c.batchesSinceCheck +
    (cfg.stallThreshold - 1 - c.consecutiveStalls) * (cfg.checkEveryBatches * cfg.maxStallBackoff)

variable {cfg c b}

theorem Pacing.step (h : c.Pacing cfg) (hevery : 0 < cfg.checkEveryBatches)
    (hmax : 0 < cfg.maxStallBackoff) : (c.step cfg b).Pacing cfg := by
  have hnew : ∀ {s k}, 0 < k → k ≤ cfg.maxStallBackoff → Pacing cfg ⟨s, 0, k⟩ :=
    fun hk hle => ⟨hk, hle, Nat.mul_pos hevery hk⟩
  have hstall : 0 < min (c.stallBackoff * 2) cfg.maxStallBackoff :=
    lt_min (Nat.mul_pos h.pos Nat.two_pos) hmax
  unfold Checkpointer.step afterBatch
  dsimp only
  split_ifs with hearly <;>
    first
    | exact ⟨h.pos, h.le, hearly⟩
    | exact hnew h.pos h.le
    | exact hnew hstall (min_le_right _ _)
    | exact hnew Nat.one_pos hmax

/-- A batch of a log that is stuck brings the `TRUNCATE` nearer, or tries it. -/
theorem truncate_or_left (h : c.Pacing cfg) (hlimits : cfg.softLimitBytes ≤ cfg.hardLimitBytes)
    (hstuck : c.Stuck cfg b) (hanswered : c.Answered cfg b) :
    .truncate ∈ c.tried cfg b ∨ (c.step cfg b).left cfg + 1 ≤ c.left cfg := by
  obtain ⟨hhard, hundrained⟩ := hstuck
  have hdue := h.due
  by_cases hearly : c.batchesSinceCheck + 1 < cfg.checkEveryBatches * c.stallBackoff
  · right
    have hstep : c.step cfg b = { c with batchesSinceCheck := c.batchesSinceCheck + 1 } := by
      simp only [step, afterBatch, if_pos hearly]
    rw [hstep]
    unfold left
    dsimp only
    omega
  · have hsoft : ¬ b.walBytes < cfg.softLimitBytes := by omega
    have hpassive : .passive ∈ c.tried cfg b := by
      unfold tried
      rw [if_neg hearly, if_neg hsoft]
      dsimp only
      split_ifs <;> simp
    -- the checkpoint is run, and counts as a stall
    have hstalled : (b.file.walCheckpoint .passive b.attempts.1).1.any
        (fun r => r.busy || decide (r.checkpointed < r.logPages)) = true := by
      cases hrow : (b.file.walCheckpoint .passive b.attempts.1).1 with
      | none =>
        refine absurd ?_ (hanswered hpassive)
        cases hattempt : b.attempts.1 with
        | fails => rfl
        | runs | locked =>
          rw [hattempt] at hrow
          cases hrow
      | some row => simpa using hundrained hpassive row hrow
    by_cases htop : cfg.stallThreshold ≤ c.consecutiveStalls + 1
    · left
      unfold tried
      rw [if_neg hearly, if_neg hsoft]
      dsimp only
      rw [if_pos hstalled, if_pos ⟨htop, hhard⟩]
      exact List.mem_cons_of_mem _ List.mem_cons_self
    · right
      have hstep : c.step cfg b =
          ⟨c.consecutiveStalls + 1, 0, min (c.stallBackoff * 2) cfg.maxStallBackoff⟩ := by
        simp only [step, afterBatch, if_neg hearly, if_neg hsoft, hstalled, if_true]
        rw [if_neg fun hall => htop hall.1]
      have hperiod : cfg.checkEveryBatches * min (c.stallBackoff * 2) cfg.maxStallBackoff ≤
          cfg.checkEveryBatches * cfg.maxStallBackoff :=
        Nat.mul_le_mul_left _ (min_le_right _ _)
      obtain ⟨k, hk⟩ : ∃ k, cfg.stallThreshold - 1 - c.consecutiveStalls = k + 1 :=
        ⟨cfg.stallThreshold - 2 - c.consecutiveStalls, by omega⟩
      have hk' : cfg.stallThreshold - 1 - (c.consecutiveStalls + 1) = k := by omega
      rw [hstep]
      unfold left
      dsimp only
      rw [hk, hk', Nat.succ_mul]
      omega

theorem truncate_of_left (hevery : 0 < cfg.checkEveryBatches) (hmax : 0 < cfg.maxStallBackoff)
    (hlimits : cfg.softLimitBytes ≤ cfg.hardLimitBytes) {window : List (Batch T)}
    (h : c.Pacing cfg) (hlen : c.left cfg ≤ window.length)
    (hstuck : Machine.Meets (step cfg) (Stuck cfg) c window)
    (hanswered : Machine.Meets (step cfg) (Answered cfg) c window) :
    ∃ i, i < c.left cfg ∧ ∃ b ∈ window[i]?,
      .truncate ∈ (Machine.run (step cfg) c (window.take i)).tried cfg b := by
  induction window generalizing c with
  | nil =>
    have hdue := h.due
    have hnone : c.left cfg = 0 := Nat.le_zero.1 hlen
    unfold left at hnone
    omega
  | cons b window ih =>
    rcases truncate_or_left h hlimits hstuck.1 hanswered.1 with hnow | hless
    · exact ⟨0, by unfold left; have := h.due; omega, b, rfl, hnow⟩
    · rw [List.length_cons] at hlen
      obtain ⟨i, hi, b', hb', htried⟩ := ih (h.step hevery hmax) (by omega) hstuck.2 hanswered.2
      exact ⟨i + 1, by omega, b', hb', htried⟩

/-- **Escalation is bounded.**  After any batches, a log that stays past the hard limit
    and is never drained has a `TRUNCATE` tried within the bound, if no passive
    checkpoint returns an error. -/
theorem truncate_within (cfg : CheckpointConfig) (hevery : 0 < cfg.checkEveryBatches)
    (hthreshold : 0 < cfg.stallThreshold) (hmax : 0 < cfg.maxStallBackoff)
    (hlimits : cfg.softLimitBytes ≤ cfg.hardLimitBytes) (before window : List (Batch T))
    (hlen : cfg.stallThreshold * cfg.checkEveryBatches * cfg.maxStallBackoff ≤ window.length)
    (hstuck : Machine.Meets (step cfg) (Stuck cfg) (Machine.run (step cfg) {} before) window)
    (hanswered :
      Machine.Meets (step cfg) (Answered cfg) (Machine.run (step cfg) {} before) window) :
    ∃ i, i < cfg.stallThreshold * cfg.checkEveryBatches * cfg.maxStallBackoff ∧
      ∃ b ∈ window[i]?,
        .truncate ∈ (Machine.run (step cfg) {} (before ++ window.take i)).tried cfg b := by
  have hinit : Pacing cfg {} := ⟨Nat.one_pos, hmax, Nat.mul_pos hevery Nat.one_pos⟩
  have hpacing : (Machine.run (step cfg) {} before).Pacing cfg :=
    Machine.invariant_run_of_forall (step cfg) (I := Pacing cfg)
      (fun _ _ h => h.step hevery hmax) hinit before
  have hleft : (Machine.run (step cfg) {} before).left cfg ≤
      cfg.stallThreshold * cfg.checkEveryBatches * cfg.maxStallBackoff := by
    generalize Machine.run (step cfg) {} before = c at hpacing
    calc c.left cfg
        ≤ cfg.checkEveryBatches * cfg.maxStallBackoff +
            (cfg.stallThreshold - 1) * (cfg.checkEveryBatches * cfg.maxStallBackoff) :=
          Nat.add_le_add ((Nat.sub_le _ _).trans (Nat.mul_le_mul_left _ hpacing.le))
            (Nat.mul_le_mul_right _ (Nat.sub_le _ _))
      _ = (cfg.stallThreshold - 1 + 1) * (cfg.checkEveryBatches * cfg.maxStallBackoff) := by
          rw [Nat.succ_mul, Nat.add_comm]
      _ = cfg.stallThreshold * cfg.checkEveryBatches * cfg.maxStallBackoff := by
          rw [Nat.sub_add_cancel hthreshold, Nat.mul_assoc]
  obtain ⟨i, hi, b, hb, htried⟩ := truncate_of_left hevery hmax hlimits hpacing
    (hleft.trans hlen) hstuck hanswered
  refine ⟨i, hi.trans_le hleft, b, hb, ?_⟩
  rw [Machine.run_append]
  exact htried

def twoStalls : CheckpointConfig := ⟨1, 10, 20, 2, 4⟩

def fortyBatches (passive : Attempt) : List (Batch Nat) := .replicate 40 ⟨{}, 20, passive, .runs⟩

/-- A locked file is checked after one batch and after two more, and escalates then. -/
theorem truncate_within_locked :
    ∃ i, i < 8 ∧ ∃ b ∈ (fortyBatches .locked)[i]?, .truncate ∈
      (Machine.run (step twoStalls) {} ([] ++ (fortyBatches .locked).take i)).tried twoStalls b :=
  truncate_within twoStalls (by decide) (by decide) (by decide) (by decide) [] _ (by decide)
    (by decide +kernel) (by decide +kernel)

/-- A log whose passive checkpoints return an error is never cut. -/
theorem failing_never_truncates :
    Machine.Meets (step twoStalls) (Stuck twoStalls) {} (fortyBatches .fails) ∧
      ∀ i < 40, ∀ b ∈ (fortyBatches .fails)[i]?, .truncate ∉
        (Machine.run (step twoStalls) {} ((fortyBatches .fails).take i)).tried twoStalls b := by
  decide +kernel

end Checkpointer

end Shardlite.Storage
