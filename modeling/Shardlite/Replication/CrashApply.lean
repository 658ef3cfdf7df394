/-
  Shardlite.Replication.CrashApply

  How a follower's file and position move while a batch is applied: page writes and
  size changes one by one, one sync of the file, and only then the new position file,
  renamed into place.  A crash keeps some beginning of the writes that were not synced
  and, once renamed, perhaps the new position.

  Whatever was kept, applying the stream from the recorded position on gives the bytes
  that applying it without a crash gives.  Page numbers are from 1.
-/
import Shardlite.Lib.File
import Shardlite.Lib.Machine
import Shardlite.Replication.Follower
import Shardlite.Vfs.Wal

namespace Shardlite.Vfs

abbrev FileOp := File.Op UInt8

/-- Page writes of a transaction, then the size that its commit frame carries. -/
def CommittedTxn.fileOps (txn : CommittedTxn) : List FileOp :=
  txn.frames.map (fun frame => .write ((frame.pageNo - 1) * txn.pageSize) frame.data) ++
    [.setLen (txn.dbSizePages * txn.pageSize)]

/-- The operations that applying transactions performs on a file. -/
def applyOps (txns : List CommittedTxn) : List FileOp := txns.flatMap (·.fileOps)

/-- Apply captured transactions to a follower database file. -/
def applyToDbFile (file : Bytes) (txns : List CommittedTxn) : Bytes :=
  File.perform 0 (applyOps txns) file

theorem applyToDbFile_append (file : Bytes) (txns txns' : List CommittedTxn) :
    applyToDbFile file (txns ++ txns') = applyToDbFile (applyToDbFile file txns) txns' := by
  rw [applyToDbFile, applyOps, List.flatMap_append, File.perform_append]
  rfl

/-- Applying transactions makes up for a beginning of their writes already done. -/
theorem applyToDbFile_of_cut {done : List FileOp} {txns : List CommittedTxn}
    (h : done <+: applyOps txns) (file : Bytes) :
    applyToDbFile (File.perform 0 done file) txns = applyToDbFile file txns :=
  File.perform_of_cut 0 h file

theorem applyOps_cut {txns txns' : List CommittedTxn} (h : txns <+: txns') :
    applyOps txns <+: applyOps txns' := by
  obtain ⟨rest, rfl⟩ := h
  rw [applyOps, applyOps, List.flatMap_append]
  exact List.prefix_append _ _

end Shardlite.Vfs

namespace Shardlite.Replication

open Vfs

/-! ## The follower of one shard -/

inductive ApplyStage where
  /-- These writes and size changes are still to be made. -/
  | writing (todo : List FileOp)
  /-- The file is synced. -/
  | flushed
  /-- The new position file is in place, its directory not synced. -/
  | renamed
  deriving DecidableEq, Repr

/-- A batch being applied, and the position it leads to. -/
structure Applying where
  position : Position
  stage : ApplyStage
  deriving DecidableEq, Repr

/-- A follower's database file and position file. -/
structure FollowerFile where
  /-- The file as it was last synced. -/
  durable : Bytes
  /-- What was written since. -/
  unsynced : List FileOp := []
  /-- The position file. -/
  recorded : Position
  /-- The position in memory, while the process runs. -/
  running : Option Position
  job : Option Applying := none
  /-- The last transaction of a batch that was written and synced whole. -/
  flushedLsn : Nat
  /-- The last transaction of a batch that was ever begun. -/
  begunLsn : Nat
  deriving DecidableEq, Repr

/-- The steps of applying frames, and what interrupts them. -/
inductive ApplyAct where
  | receive (epoch : Nat) (txns : List (StreamTxn CommittedTxn))
  | write
  | flush
  | rename
  | settle
  /-- A write, the sync or the new position file fails. -/
  | fail
  /-- The process dies with `kept` of the unsynced writes on disk, and the renamed
      position file if `renameKept`. -/
  | crash (kept : Nat) (renameKept : Bool)
  | restart
  deriving DecidableEq, Repr

namespace FollowerFile

/-- A follower over `base`, at the position of its file. -/
def init (base : Bytes) (start : Position) : FollowerFile where
  durable := base
  recorded := start
  running := some start
  flushedLsn := start.appliedLsn
  begunLsn := start.appliedLsn

variable (w : FollowerFile)

def file : Bytes := File.perform 0 w.unsynced w.durable

/-- What a crash leaves of the file. -/
def left (kept : Nat) : Bytes := File.perform 0 (w.unsynced.take kept) w.durable

/-- `Follower::apply` up to its first write. -/
def receive (epoch : Nat) (txns : List (StreamTxn CommittedTxn)) : FollowerFile :=
  match w.running, w.job, txns with
  | some pos, none, _ :: _ =>
    match (⟨w.file, pos⟩ : Copy Bytes).apply (fun file txn => applyToDbFile file [txn]) epoch
        txns with
    | .ok copy =>
      { w with
        job := some ⟨copy.position, .writing (applyOps (txns.map (·.txn)))⟩
        begunLsn := max w.begunLsn copy.position.appliedLsn }
    | .error _ => w
  | _, _, _ => w

def write : FollowerFile :=
  match w.job with
  | some ⟨position, .writing (op :: todo)⟩ =>
    { w with unsynced := w.unsynced ++ [op], job := some ⟨position, .writing todo⟩ }
  | _ => w

def flush : FollowerFile :=
  match w.job with
  | some ⟨position, .writing []⟩ =>
    { w with
      durable := w.file
      unsynced := []
      job := some ⟨position, .flushed⟩
      flushedLsn := max w.flushedLsn position.appliedLsn }
  | _ => w

def rename : FollowerFile :=
  match w.job with
  | some ⟨position, .flushed⟩ => { w with job := some ⟨position, .renamed⟩ }
  | _ => w

def settle : FollowerFile :=
  match w.job with
  | some ⟨position, .renamed⟩ =>
    { w with recorded := position, running := some position, job := none }
  | _ => w

def fail : FollowerFile :=
  match w.job with
  | some ⟨_, .renamed⟩ => w
  | _ => { w with job := none }

def crash (kept : Nat) (renameKept : Bool) : FollowerFile where
  durable := w.left kept
  recorded :=
    match w.job with
    | some ⟨position, .renamed⟩ => if renameKept then position else w.recorded
    | _ => w.recorded
  running := none
  flushedLsn := w.flushedLsn
  begunLsn := w.begunLsn

def restart : FollowerFile :=
  match w.running with
  | none => { w with running := some w.recorded }
  | some _ => w

def step : ApplyAct → FollowerFile
  | .receive epoch txns => w.receive epoch txns
  | .write => w.write
  | .flush => w.flush
  | .rename => w.rename
  | .settle => w.settle
  | .fail => w.fail
  | .crash kept renameKept => w.crash kept renameKept
  | .restart => w.restart

def runs (base : Bytes) (start : Position) (acts : List ApplyAct) : FollowerFile :=
  Machine.run step (init base start) acts

/-- The transactions served after LSN `start` are those of `stream`. -/
def Serves (stream : List CommittedTxn) (start : Nat) : ApplyAct → Prop
  | .receive _ txns => ∀ t ∈ txns, start < t.lsn ∧ stream[t.lsn - start - 1]? = some t.txn
  | _ => True

instance (stream : List CommittedTxn) (start : Nat) (a : ApplyAct) :
    Decidable (Serves stream start a) := by
  unfold Serves
  split <;> infer_instance

/-! ## Redoing -/

section Redo

variable {stream : List CommittedTxn} {base f : Bytes} {begun r q n : Nat}

/-- The transactions after `r`, up to `n`. -/
def between (stream : List CommittedTxn) (r n : Nat) : List CommittedTxn := (stream.take n).drop r

theorem between_append (hrq : r ≤ q) (hqn : q ≤ n) (hn : n ≤ stream.length) :
    between stream r n = between stream r q ++ between stream q n := by
  have hsplit : stream.take n = stream.take q ++ between stream q n := by
    conv_lhs => rw [← List.take_append_drop q (stream.take n), List.take_take, min_eq_left hqn]
    rfl
  have hr : r ≤ (stream.take q).length := by
    rw [List.length_take]
    omega
  rw [between, hsplit, List.drop_append_of_le_length hr]
  rfl

/-- From `f`, applying the stream past its first `r` transactions gives what applying it
    to `base` gives, if it is applied as far as it was ever begun. -/
def Redoes (stream : List CommittedTxn) (base : Bytes) (begun r : Nat) (f : Bytes) : Prop :=
  ∀ n, begun ≤ n → r ≤ n → n ≤ stream.length →
    applyToDbFile f (between stream r n) = applyToDbFile base (stream.take n)

section

variable (h : Redoes stream base begun r f)

include h

theorem Redoes.mono {begun' : Nat} (hle : begun ≤ begun') :
    Redoes stream base begun' r f :=
  fun n hn => h n (hle.trans hn)

theorem Redoes.perform {done : List FileOp} (hrq : r ≤ q)
    (hq : q ≤ begun) (hdone : done <+: applyOps (between stream r q)) :
    Redoes stream base begun r (File.perform 0 done f) := by
  intro n hn hr hlen
  have hbatch : between stream r q <+: between stream r n := by
    rw [between_append hrq (hq.trans hn) hlen]
    exact List.prefix_append _ _
  rw [applyToDbFile_of_cut (hdone.trans (applyOps_cut hbatch))]
  exact h n hn hr hlen

theorem Redoes.apply (hrq : r ≤ q) :
    Redoes stream base begun q (applyToDbFile f (between stream r q)) := by
  intro n hn hqn hlen
  rw [← applyToDbFile_append, ← between_append hrq hqn hlen]
  exact h n hn (hrq.trans hqn) hlen

end

end Redo

/-! ## What is received -/

variable {txns : List (StreamTxn CommittedTxn)} {r epoch : Nat}

section Received

variable {stream : List CommittedTxn} {start : Nat}

theorem eq_between_of_serves {as : List CommittedTxn} (hr : r ≤ stream.length)
    (h : ∀ t ∈ positioned (start + r + 1) as,
      start < t.lsn ∧ stream[t.lsn - start - 1]? = some t.txn) :
    r + as.length ≤ stream.length ∧ as = between stream r (r + as.length) := by
  induction as generalizing r with
  | nil =>
    refine ⟨hr, ?_⟩
    rw [between, List.length_nil, Nat.add_zero, List.drop_take, Nat.sub_self, List.take_zero]
  | cons a as ih =>
    have hhead := (h ⟨start + r + 1, a⟩ List.mem_cons_self).2
    rw [show start + r + 1 - start - 1 = r from by omega] at hhead
    obtain ⟨hlt, hget⟩ := List.getElem?_eq_some_iff.1 hhead
    obtain ⟨hlen, heq⟩ := ih (r := r + 1) hlt fun t ht => h t (List.mem_cons_of_mem _ ht)
    rw [List.length_cons]
    refine ⟨by omega, ?_⟩
    have hone : between stream r (r + 1) = [a] := by
      rw [between, List.drop_take, Nat.add_sub_cancel_left, List.drop_eq_getElem_cons hlt, hget]
      rfl
    rw [show r + (as.length + 1) = r + 1 + as.length from by omega,
      between_append (Nat.le_succ r) (Nat.le_add_right _ _) (by omega), hone, ← heq]
    rfl

/-- A batch that the follower takes is the next piece of the stream. -/
theorem exists_between_of_apply {image : Bytes} {pos : Position}
    {app : Bytes → CommittedTxn → Bytes} {copy : Copy Bytes}
    (hne : txns ≠ []) (hpos : pos.appliedLsn = start + r) (hr : r ≤ stream.length)
    (hserves : ∀ t ∈ txns, start < t.lsn ∧ stream[t.lsn - start - 1]? = some t.txn)
    (hok : (⟨image, pos⟩ : Copy Bytes).apply app epoch txns = .ok copy) :
    ∃ q, r ≤ q ∧ q ≤ stream.length ∧ copy.position.appliedLsn = start + q ∧
      txns.map (·.txn) = between stream r q := by
  have hlast := List.getLast?_eq_some_getLast hne
  have hfirst := List.head?_eq_some_head hne
  rw [Copy.apply, hfirst, hlast] at hok
  simp only at hok
  split_ifs at hok
  split at hok
  · cases hok
  · next hgap =>
      obtain rfl := Except.ok.inj hok
      rw [hpos] at hgap
      have hpositioned := eq_positioned_of_firstGap hgap
      rw [hpositioned] at hserves
      obtain ⟨hlen, heq⟩ := eq_between_of_serves hr hserves
      refine ⟨_, Nat.le_add_right _ _, hlen, ?_, heq⟩
      show (txns.getLast hne).lsn = _
      have hmne : txns.map (·.txn) ≠ [] := fun hnil => hne (List.map_eq_nil_iff.1 hnil)
      obtain ⟨b, hb⟩ := exists_getLast?_positioned (start + r + 1) hmne
      rw [← hpositioned, hlast] at hb
      rw [Option.some.inj hb]
      show start + r + 1 + _ - 1 = _
      omega

end Received

/-! ## Runs -/

section Runs

variable {stream : List CommittedTxn} {base : Bytes} {start : Nat} {w : FollowerFile}

/-- What a batch in hand has written, or what it will record. -/
def JobInv (stream : List CommittedTxn) (base : Bytes) (start : Nat) (w : FollowerFile)
    (begun r : Nat) : Option Applying → Prop
  | none => True
  | some ⟨position, .writing todo⟩ => ∃ q done f, position.appliedLsn = start + q ∧ r ≤ q ∧
      q ≤ begun ∧ q ≤ stream.length ∧ done ++ todo = applyOps (between stream r q) ∧
      w.file = File.perform 0 done f ∧ Redoes stream base begun r f
  | some ⟨position, _⟩ => ∃ q, position.appliedLsn = start + q ∧ q ≤ stream.length ∧
      position.appliedLsn ≤ w.flushedLsn ∧ w.unsynced = [] ∧ Redoes stream base begun q w.durable

structure Inv (stream : List CommittedTxn) (base : Bytes) (start : Nat) (w : FollowerFile)
    (begun r : Nat) : Prop where
  reach : w.begunLsn = start + begun
  recorded : w.recorded.appliedLsn = start + r
  within : r ≤ stream.length
  flushed : w.recorded.appliedLsn ≤ w.flushedLsn
  running : ∀ pos, w.running = some pos → pos = w.recorded
  left : ∀ kept, Redoes stream base begun r (w.left kept)
  job : JobInv stream base start w begun r w.job

variable {begun : Nat}

theorem left_length (w : FollowerFile) : w.left w.unsynced.length = w.file := by
  rw [FollowerFile.left, List.take_length, file]

section

variable (h : Inv stream base start w begun r)

include h

theorem Inv.receive (hserves : Serves stream start (.receive epoch txns)) :
    ∃ begun', Inv stream base start (w.receive epoch txns) begun' r := by
  unfold FollowerFile.receive
  split
  · next pos t ts hrun hjob =>
      obtain rfl := h.running pos hrun
      split
      · next copy hok =>
          obtain ⟨q, hrq, hq, hlsn, hmap⟩ :=
            exists_between_of_apply (List.cons_ne_nil t ts) h.recorded h.within hserves hok
          have hle : begun ≤ max begun q := le_max_left _ _
          refine ⟨max begun q, ?_, h.recorded, h.within, h.flushed, h.running,
            fun kept => (h.left kept).mono hle, q, [], w.file, hlsn, hrq, le_max_right _ _, hq,
            ?_, rfl, ?_⟩
          · show max w.begunLsn copy.position.appliedLsn = _
            rw [h.reach, hlsn]
            omega
          · rw [List.nil_append, hmap]
          · rw [← left_length]
            exact (h.left _).mono hle
      · exact ⟨begun, h⟩
  · exact ⟨begun, h⟩

theorem Inv.write :
    Inv stream base start w.write begun r := by
  have hj := h.job
  unfold FollowerFile.write
  split
  · next position op todo hjob =>
      rw [hjob] at hj
      obtain ⟨q, done, f, hlsn, hrq, hqb, hq, hops, hfile, hredo⟩ := hj
      have hdone : done ++ [op] <+: applyOps (between stream r q) := by
        rw [← hops]
        exact ⟨todo, by rw [List.append_assoc, List.singleton_append]⟩
      have hfile' : File.perform 0 (w.unsynced ++ [op]) w.durable =
          File.perform 0 (done ++ [op]) f := by
        rw [File.perform_append, File.perform_append]
        exact congrArg _ hfile
      refine ⟨h.reach, h.recorded, h.within, h.flushed, h.running, fun kept => ?_, q, done ++ [op], f,
        hlsn, hrq, hqb, hq, ?_, hfile', hredo⟩
      · -- either the new write is lost, or everything in hand is on disk
        show Redoes _ _ _ _ (File.perform 0 ((w.unsynced ++ [op]).take kept) w.durable)
        by_cases hk : kept ≤ w.unsynced.length
        · rw [List.take_append_of_le_length hk]
          exact h.left kept
        · rw [List.take_of_length_le (by rw [List.length_append, List.length_singleton]; omega),
            hfile']
          exact hredo.perform hrq hqb hdone
      · rw [List.append_assoc, List.singleton_append]
        exact hops
  · exact h

theorem Inv.flush :
    Inv stream base start w.flush begun r := by
  have hj := h.job
  unfold FollowerFile.flush
  split
  · next position hjob =>
      rw [hjob] at hj
      obtain ⟨q, done, f, hlsn, hrq, hqb, hq, hops, hfile, hredo⟩ := hj
      rw [List.append_nil] at hops
      subst hops
      refine ⟨h.reach, h.recorded, h.within, h.flushed.trans (le_max_left _ _), h.running,
        fun kept => ?_, q, hlsn, hq, le_max_right _ _, rfl, ?_⟩
      · show Redoes _ _ _ _ (File.perform 0 ([].take kept) w.file)
        rw [List.take_nil, File.perform_nil, ← left_length]
        exact h.left _
      · show Redoes _ _ _ _ w.file
        rw [hfile]
        exact hredo.apply hrq
  · exact h

theorem Inv.rename :
    Inv stream base start w.rename begun r := by
  have hj := h.job
  unfold FollowerFile.rename
  split
  · next position hjob =>
      rw [hjob] at hj
      exact ⟨h.reach, h.recorded, h.within, h.flushed, h.running, h.left, hj⟩
  · exact h

end

/-- A synced file redoes from the position of the batch, with nothing to lose. -/
theorem redoes_left {q : Nat} (hnone : w.unsynced = [])
    (h : Redoes stream base begun q w.durable) (kept : Nat) :
    Redoes stream base begun q (w.left kept) := by
  rw [FollowerFile.left, hnone, List.take_nil]
  exact h

section

variable (h : Inv stream base start w begun r)

include h

theorem Inv.settle :
    ∃ r', Inv stream base start w.settle begun r' := by
  have hj := h.job
  unfold FollowerFile.settle
  split
  · next position hjob =>
      rw [hjob] at hj
      obtain ⟨q, hlsn, hq, hflushed, hnone, hredo⟩ := hj
      exact ⟨q, h.reach, hlsn, hq, hflushed, fun pos hpos => (Option.some.inj hpos).symm,
        redoes_left hnone hredo, trivial⟩
  · exact ⟨r, h⟩

theorem Inv.fail :
    Inv stream base start w.fail begun r := by
  unfold FollowerFile.fail
  split
  · exact h
  · exact ⟨h.reach, h.recorded, h.within, h.flushed, h.running, h.left, trivial⟩

theorem Inv.crash (kept : Nat)
    (renameKept : Bool) : ∃ r', Inv stream base start (w.crash kept renameKept) begun r' := by
  have hold : Inv stream base start
      { durable := w.left kept, recorded := w.recorded, running := none,
        flushedLsn := w.flushedLsn, begunLsn := w.begunLsn } begun r :=
    ⟨h.reach, h.recorded, h.within, h.flushed, nofun,
      redoes_left rfl (h.left kept), trivial⟩
  have hj := h.job
  unfold FollowerFile.crash
  split
  · next position hjob =>
      cases renameKept with
      | false => exact ⟨r, hold⟩
      | true =>
        rw [hjob] at hj
        obtain ⟨q, hlsn, hq, hflushed, hnone, hredo⟩ := hj
        exact ⟨q, h.reach, hlsn, hq, hflushed, nofun,
          redoes_left rfl (redoes_left hnone hredo kept), trivial⟩
  · exact ⟨r, hold⟩

theorem Inv.restart :
    Inv stream base start w.restart begun r := by
  unfold FollowerFile.restart
  split
  · exact ⟨h.reach, h.recorded, h.within, h.flushed, fun _ hpos => (Option.some.inj hpos).symm,
      h.left, h.job⟩
  · exact h

theorem Inv.step {a : ApplyAct}
    (hserves : Serves stream start a) :
    ∃ begun' r', Inv stream base start (w.step a) begun' r' := by
  cases a with
  | receive epoch txns =>
    obtain ⟨begun', h'⟩ := h.receive hserves
    exact ⟨begun', r, h'⟩
  | write => exact ⟨begun, r, h.write⟩
  | flush => exact ⟨begun, r, h.flush⟩
  | rename => exact ⟨begun, r, h.rename⟩
  | settle => exact ⟨begun, h.settle⟩
  | fail => exact ⟨begun, r, h.fail⟩
  | crash kept renameKept => exact ⟨begun, h.crash kept renameKept⟩
  | restart => exact ⟨begun, r, h.restart⟩

end

theorem inv_init (stream : List CommittedTxn) (base : Bytes) (start : Position) :
    Inv stream base start.appliedLsn (init base start) 0 0 := by
  refine ⟨rfl, rfl, Nat.zero_le _, le_rfl, fun _ hpos => (Option.some.inj hpos).symm,
    redoes_left rfl fun n _ _ _ => ?_, trivial⟩
  rw [between, List.drop_zero]
  rfl

/-- **Physical apply is crash safe.**  Applying a batch again makes up for any beginning
    of its writes, whatever is applied afterwards.  And in every run, with crashes and
    failed writes at any point, the recorded position is one that was written and synced
    whole: from what a crash leaves, the stream past that position, applied as far as it
    was begun, gives the bytes of the stream applied without a crash. -/
theorem apply_crash_safe (stream : List CommittedTxn) (base : Bytes) (start : Position)
    (acts : List ApplyAct)
    (hserves : Machine.Meets step (fun _ a => Serves stream start.appliedLsn a)
      (init base start) acts) :
    (∀ (L M : List CommittedTxn) (k : Nat),
      applyToDbFile (applyToDbFile (File.perform 0 ((applyOps L).take k) base) L) M =
        applyToDbFile (applyToDbFile base L) M) ∧
      (runs base start acts).recorded.appliedLsn ≤ (runs base start acts).flushedLsn ∧
      ∀ kept n, n ≤ stream.length →
        (runs base start acts).recorded.appliedLsn ≤ start.appliedLsn + n →
        (runs base start acts).begunLsn ≤ start.appliedLsn + n →
        applyToDbFile ((runs base start acts).left kept)
            (between stream ((runs base start acts).recorded.appliedLsn - start.appliedLsn) n) =
          applyToDbFile base (stream.take n) := by
  refine ⟨fun L M k => ?_, ?_⟩
  · rw [applyToDbFile_of_cut (List.take_prefix k _)]
  · obtain ⟨begun, r, h⟩ : ∃ begun r, Inv stream base start.appliedLsn (runs base start acts)
        begun r :=
      Machine.invariant_run step
        (I := fun w => ∃ begun r, Inv stream base start.appliedLsn w begun r)
        (fun _ _ hserves ⟨_, _, h⟩ => h.step hserves) ⟨0, 0, inv_init stream base start⟩ hserves
    refine ⟨h.flushed, fun kept n hn hrec hbegun => ?_⟩
    rw [h.recorded] at hrec ⊢
    rw [h.reach] at hbegun
    rw [Nat.add_sub_cancel_left]
    exact h.left kept n (by omega) (by omega) hn

/-- Transactions that grow the file, shrink it, and grow it past its end. -/
def smallStream : List CommittedTxn :=
  [⟨2, 2, [⟨1, [1, 1]⟩, ⟨2, [2, 2]⟩], 0⟩, ⟨1, 2, [⟨1, [3, 3]⟩], 0⟩, ⟨3, 2, [⟨3, [5, 5]⟩], 0⟩]

/-- A batch of two is cut short by a crash, applied again and recorded, and the third is
    cut short. -/
def cutApply : List ApplyAct :=
  let batch := ApplyAct.receive 1 (positioned 5 (smallStream.take 2))
  [batch, .write, .write, .write, .write, .crash 3 false, .restart, batch, .write, .write, .write,
    .write, .write, .flush, .rename, .crash 0 true, .restart,
    .receive 1 (positioned 7 (smallStream.drop 2)), .write]

theorem cutApply_redone :
    (runs [9, 9, 9, 9] ⟨1, 4⟩ cutApply).recorded = ⟨1, 6⟩ ∧
      applyToDbFile ((runs [9, 9, 9, 9] ⟨1, 4⟩ cutApply).left 1)
          (between smallStream
            ((runs [9, 9, 9, 9] ⟨1, 4⟩ cutApply).recorded.appliedLsn - 4) 3) =
        applyToDbFile [9, 9, 9, 9] (smallStream.take 3) :=
  ⟨by decide +kernel,
    (apply_crash_safe smallStream [9, 9, 9, 9] ⟨1, 4⟩ cutApply (by decide +kernel)).2.2 1 3
      (by decide) (by decide +kernel) (by decide +kernel)⟩

end Runs

end FollowerFile

end Shardlite.Replication
