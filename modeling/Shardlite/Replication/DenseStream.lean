/-
  Shardlite.Replication.DenseStream

  Within an epoch the sink gets the committed transactions of each shard, in
  order and with consecutive positions from 1; what a crash loses is followed by
  a new epoch.  Three things break this.  A clean shutdown continues its epoch even
  if the capture still holds transactions that the sink refused, and those are
  gone with the process; while no sink is attached transactions are dropped but
  use up positions; and a process that finds a log of an earlier one appends to
  it without having seen its header, so its capture ignores the frames until the
  log starts anew.

  `committed` and `delivered` are history, by shard and epoch.
-/
import Shardlite.Replication.Stream
import Shardlite.Lib.Machine

namespace Shardlite.Replication

open Function

/-- A node that writes: its captures, its stream positions and its sink. -/
structure Primary (T : Type) where
  captures : OrdMap ShardId (WalCapture T)
  /-- The shards whose log an earlier process began.  The capture has not seen its
      header. -/
  leftOver : Finset ShardId := ∅
  positions : Positions
  /-- What the position file holds. -/
  file : Positions
  attached : Bool
  committed : ShardId × Nat → List T
  delivered : ShardId × Nat → List (StreamTxn T)

/-- What happens to it. -/
inductive PrimaryAct (T : Type) where
  /-- A write batch commits, and its frames are captured unless the log is left over. -/
  | commit (shard : ShardId) (txn : T)
  /-- The log is reset and starts with a header of its own. -/
  | newLog (shard : ShardId)
  /-- The writer ships what is captured; a sink that is attached may refuse. -/
  | drain (shard : ShardId) (accepts : Bool)
  | setSink (attached : Bool)
  /-- The process dies and starts again, over the logs of these shards. -/
  | crash (attached : Bool) (left : Finset ShardId)
  /-- The process stops cleanly and starts again; closing the last connection need
      not remove a log. -/
  | shutdown (attached : Bool) (left : Finset ShardId)

namespace Primary

variable {T : Type} (ret : Retention T) (w : Primary T)

/-- What the capture of a shard holds. -/
def capture (shard : ShardId) : WalCapture T := (w.captures.get? shard).getD {}

/-- A new process, over this position file and these logs. -/
def start (file : Option Positions) (attached : Bool) (left : Finset ShardId) : Primary T :=
  { w with
    captures := .empty, leftOver := left
    positions := .loadOrInit file, file := .loadOrInit file, attached }

/-- The first start, in an empty directory. -/
def init (attached : Bool) : Primary T :=
  start ⟨.empty, ∅, {}, {}, false, fun _ => [], fun _ => []⟩ none attached ∅

def commit (shard : ShardId) (txn : T) : Primary T :=
  let key := (shard, w.positions.epoch)
  { w with
    captures := if shard ∈ w.leftOver then w.captures
      else w.captures.insert shard ((w.capture shard).emitCommit ret txn)
    committed := update w.committed key (w.committed key ++ [txn]) }

def sinkAnswer (accepts : Bool) : SinkAnswer :=
  if w.attached then (if accepts then .accepts else .refuses) else .detached

def drain (shard : ShardId) (accepts : Bool) : Primary T :=
  let r := drainCapture ret (w.capture shard) w.positions shard (w.sinkAnswer accepts)
  let key := (shard, w.positions.epoch)
  { w with
    captures := w.captures.insert shard r.capture
    positions := r.positions
    delivered := update w.delivered key (w.delivered key ++ r.delivered) }

def step : PrimaryAct T → Primary T
  | .commit shard txn => w.commit ret shard txn
  | .drain shard accepts => w.drain ret shard accepts
  | .setSink attached => { w with attached }
  | .newLog shard => { w with leftOver := w.leftOver.erase shard }
  | .crash attached left => w.start (some w.file) attached left
  | .shutdown attached left => w.start (some w.positions.markClean) attached left

/-- The state a run leads to. -/
def runs (attached : Bool) (acts : List (PrimaryAct T)) : Primary T :=
  Machine.run (step ret) (init attached) acts

/-! ## Dense streams -/

/-- In the present epoch the sink has all that was committed up to what is still
    captured, densely from position 1. -/
def Intact (shard : ShardId) : Prop :=
  ∃ sent, w.delivered (shard, w.positions.epoch) = positioned 1 sent ∧
    w.committed (shard, w.positions.epoch) = sent ++ (w.capture shard).committed

/-- In an epoch the sink has a beginning of what was committed. -/
def Dense (key : ShardId × Nat) : Prop :=
  ∃ sent, w.delivered key = positioned 1 sent ∧ sent <+: w.committed key

/-- Nothing commits into a log left over, a sink is attached whenever there is
    something to ship, and a clean shutdown leaves nothing captured. -/
def Careful : PrimaryAct T → Prop
  | .commit shard _ => shard ∉ w.leftOver
  | .drain shard _ => w.attached = true ∨ (w.capture shard).committed = []
  | .shutdown _ _ => ∀ c ∈ w.captures.values, c.committed = []
  | _ => True

instance [DecidableEq T] (a : PrimaryAct T) : Decidable (w.Careful a) := by
  unfold Careful
  split <;> infer_instance

/-! ## The invariant -/

/-- What every careful run keeps. -/
structure Inv : Prop where
  /-- The file is dirty and of the present epoch. -/
  dirty : w.file.clean = false
  epoch : w.file.epoch = w.positions.epoch
  intact : ∀ s, w.Intact s
  next : ∀ s, w.positions.nextLsn s = 1 + (w.delivered (s, w.positions.epoch)).length
  past : ∀ s e, e < w.positions.epoch → w.Dense (s, e)
  future : ∀ s e, w.positions.epoch < e → w.committed (s, e) = [] ∧ w.delivered (s, e) = []

variable {ret} {w : Primary T} {s : ShardId}
variable {c : WalCapture T} {shard : ShardId} {attached : Bool} {left : Finset ShardId}

theorem capture_insert :
    ((w.captures.insert shard c).get? s).getD {} = if s = shard then c else w.capture s := by
  rw [OrdMap.get?_insert]
  split_ifs <;> rfl

theorem Intact.dense (h : w.Intact s) : w.Dense (s, w.positions.epoch) := by
  obtain ⟨sent, hsent, hall⟩ := h
  exact ⟨sent, hsent, hall ▸ List.prefix_append _ _⟩

theorem Inv.dense (h : w.Inv) (s : ShardId) (e : Nat) : w.Dense (s, e) := by
  rcases Nat.lt_trichotomy e w.positions.epoch with hlt | rfl | hgt
  · exact h.past s e hlt
  · exact (h.intact s).dense
  · obtain ⟨hc, hd⟩ := h.future s e hgt
    exact ⟨[], hd, List.nil_prefix⟩

theorem Inv.crash (h : w.Inv) : (w.start (some w.file) attached left).Inv := by
  have hload : Positions.loadOrInit (some w.file) = { epoch := w.positions.epoch + 1 } := by
    rw [Positions.loadOrInit_of_dirty h.dirty, h.epoch]
  simp only [start, hload]
  refine ⟨rfl, rfl, fun s => ?_, fun s => ?_, fun s e he => ?_, fun s e he => ?_⟩
  · obtain ⟨hc, hd⟩ := h.future s _ (Nat.lt_succ_self _)
    exact ⟨[], hd, hc⟩
  · obtain ⟨-, hd⟩ := h.future s _ (Nat.lt_succ_self _)
    show 1 = 1 + (w.delivered (s, w.positions.epoch + 1)).length
    rw [hd]
    rfl
  · exact h.dense s e
  · exact h.future s e (Nat.lt_of_succ_lt he)

theorem Inv.shutdown (h : w.Inv) (hc : ∀ c ∈ w.captures.values, c.committed = []) :
    (w.start (some w.positions.markClean) attached left).Inv := by
  have hempty : ∀ s, (w.capture s).committed = [] := by
    intro s
    unfold capture
    cases hget : w.captures.get? s with
    | none => rfl
    | some c => exact hc c (OrdMap.mem_values_of_get? hget)
  simp only [start, Positions.loadOrInit_markClean]
  refine ⟨rfl, rfl, fun s => ?_, h.next, h.past, h.future⟩
  obtain ⟨sent, hsent, hall⟩ := h.intact s
  rw [hempty s] at hall
  exact ⟨sent, hsent, hall⟩

theorem Inv.commit (h : w.Inv) {txn : T} (hc : shard ∉ w.leftOver) :
    (w.commit ret shard txn).Inv := by
  have hcaptured : (w.commit ret shard txn).captures =
      w.captures.insert shard ((w.capture shard).emitCommit ret txn) := if_neg hc
  have hother : ∀ {key}, key ≠ (shard, w.positions.epoch) →
      (w.commit ret shard txn).committed key = w.committed key := fun hne =>
    update_of_ne hne ..
  refine ⟨h.dirty, h.epoch, fun s => ?_, h.next, fun s e he => ?_, fun s e he => ?_⟩
  · obtain ⟨sent, hsent, hall⟩ := h.intact s
    refine ⟨sent, hsent, ?_⟩
    rw [capture, hcaptured, capture_insert]
    by_cases hs : s = shard
    · subst hs
      rw [if_pos rfl, WalCapture.committed_emitCommit, ← List.append_assoc, ← hall]
      exact update_self ..
    · rw [if_neg hs, ← hall]
      exact hother fun heq => hs (congrArg Prod.fst heq)
  · obtain ⟨sent, hsent, hpre⟩ := h.past s e he
    refine ⟨sent, hsent, ?_⟩
    rw [hother fun heq => he.ne (congrArg Prod.snd heq)]
    exact hpre
  · rw [hother fun heq => he.ne' (congrArg Prod.snd heq)]
    exact h.future s e he

/-- What shipping leaves and what the sink took make up what was captured, and
    the next position counts what the sink took. -/
theorem drainCapture_spec (ret : Retention T) {p : Positions} {sink : SinkAnswer}
    (hsink : sink ≠ .detached ∨ c.committed = []) (hpos : 0 < p.nextLsn shard) :
    ∃ sent, (drainCapture ret c p shard sink).delivered = positioned (p.nextLsn shard) sent ∧
      c.committed = sent ++ (drainCapture ret c p shard sink).capture.committed ∧
      (drainCapture ret c p shard sink).positions.epoch = p.epoch ∧
      ∀ s, (drainCapture ret c p shard sink).positions.nextLsn s =
        if s = shard then p.nextLsn shard + sent.length else p.nextLsn s := by
  unfold drainCapture
  by_cases hnone : c.committed = []
  · rw [if_pos (List.isEmpty_iff.2 hnone)]
    refine ⟨[], rfl, by rw [hnone]; rfl, rfl, fun s => ?_⟩
    rw [List.length_nil, Nat.add_zero]
    split_ifs with hs
    · rw [hs]
    · rfl
  · rw [if_neg (by rwa [List.isEmpty_iff])]
    cases sink with
    | detached => exact absurd rfl (hsink.resolve_right hnone)
    | accepts =>
      refine ⟨c.committed, rfl, (List.append_nil _).symm, rfl, fun s => ?_⟩
      exact Positions.nextLsn_allocate
    | refuses =>
      refine ⟨[], rfl, ?_, by simp, fun s => ?_⟩
      · rw [WalCapture.committed_requeue, WalCapture.committed_drained, List.append_nil]
        rfl
      · rw [Positions.nextLsn_rollback_allocate hpos, List.length_nil, Nat.add_zero]
        split_ifs with hs
        · rw [hs]
        · rfl

theorem Inv.drain (h : w.Inv) {accepts : Bool}
    (hc : w.attached = true ∨ (w.capture shard).committed = []) :
    (w.drain ret shard accepts).Inv := by
  have hsink : w.sinkAnswer accepts ≠ .detached ∨ (w.capture shard).committed = [] := by
    refine hc.imp_left fun hatt => ?_
    rw [sinkAnswer, if_pos hatt]
    split_ifs <;> exact nofun
  have hpos : 0 < w.positions.nextLsn shard := by
    rw [h.next]
    omega
  obtain ⟨more, hdel, hcap, hepoch, hnext⟩ := drainCapture_spec ret hsink hpos
  have hother : ∀ {key}, key ≠ (shard, w.positions.epoch) →
      (w.drain ret shard accepts).delivered key = w.delivered key := fun hne =>
    update_of_ne hne ..
  have hsame : (w.drain ret shard accepts).delivered (shard, w.positions.epoch) =
      w.delivered (shard, w.positions.epoch) ++ positioned (w.positions.nextLsn shard) more := by
    rw [← hdel]
    exact update_self ..
  have hepoch : (w.drain ret shard accepts).positions.epoch = w.positions.epoch := hepoch
  refine ⟨h.dirty, h.epoch.trans hepoch.symm, fun s => ?_, fun s => ?_, fun s e he => ?_,
    fun s e he => ?_⟩
  · obtain ⟨sent, hsent, hall⟩ := h.intact s
    unfold Intact
    rw [hepoch]
    by_cases hs : s = shard
    · subst hs
      refine ⟨sent ++ more, ?_, ?_⟩
      · -- the positions go on where the sink's last ones stopped
        rw [hsame, h.next, hsent, positioned_append, length_positioned]
      · show w.committed _ = _ ++ (((w.captures.insert s _).get? s).getD {}).committed
        rw [capture_insert, if_pos rfl, hall, hcap, List.append_assoc]
    · refine ⟨sent, ?_, ?_⟩
      · rw [hother fun heq => hs (congrArg Prod.fst heq), hsent]
      · show w.committed _ = _ ++ (((w.captures.insert shard _).get? s).getD {}).committed
        rw [capture_insert, if_neg hs, hall]
  · rw [hepoch]
    show (drainCapture ret _ _ _ _).positions.nextLsn s = _
    rw [hnext]
    split_ifs with hs
    · subst hs
      rw [hsame, List.length_append, length_positioned, h.next]
      omega
    · rw [hother fun heq => hs (congrArg Prod.fst heq), h.next]
  · rw [hepoch] at he
    obtain ⟨sent, hsent, hpre⟩ := h.past s e he
    refine ⟨sent, ?_, hpre⟩
    rw [hother fun heq => he.ne (congrArg Prod.snd heq), hsent]
  · rw [hepoch] at he
    rw [hother fun heq => he.ne' (congrArg Prod.snd heq)]
    exact h.future s e he

/-! ## Whole runs -/

theorem Inv.step (h : w.Inv) {a : PrimaryAct T} (hc : w.Careful a) : (w.step ret a).Inv := by
  cases a with
  | commit shard txn => exact h.commit hc
  | drain shard accepts => exact h.drain hc
  | setSink _ | newLog _ => exact ⟨h.dirty, h.epoch, h.intact, h.next, h.past, h.future⟩
  | crash attached left => exact h.crash
  | shutdown attached left => exact h.shutdown hc

theorem inv_init (attached : Bool) : (init attached : Primary T).Inv :=
  ⟨rfl, rfl, fun _ => ⟨[], rfl, rfl⟩, fun _ => rfl, fun _ _ _ => ⟨[], rfl, List.nil_prefix⟩,
    fun _ _ _ => ⟨rfl, rfl⟩⟩

/-- Transactions of one byte, and room for ten. -/
def smallTxns : Retention Nat := ⟨fun _ => 1, 10⟩

/-- A refusal, a later success, and a clean restart that goes on. -/
def refusedOnce : List (PrimaryAct Nat) :=
  [.commit 0 100, .drain 0 false, .commit 0 101, .drain 0 true, .shutdown true {0},
    .newLog 0, .commit 0 102, .drain 0 true]

/-- The sink refuses, the node is stopped cleanly, and its epoch goes on. -/
def stoppedRefused : List (PrimaryAct Nat) :=
  [.commit 0 100, .drain 0 true, .commit 0 101, .drain 0 false, .shutdown true ∅,
    .commit 0 102, .drain 0 true]

end Primary

end Shardlite.Replication
