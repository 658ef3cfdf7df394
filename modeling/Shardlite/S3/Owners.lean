/-
  Shardlite.S3.Owners

  Successive owners of a shard that archive under one prefix.  An owner commits, and ships
  what it committed with positions of its own stream; uploads run behind.  Every node that
  archives, owner or not, takes snapshots of what file it has.  A node that takes the shard
  over without a file recovers one from the archive.  Every node counts its own epochs: one
  more after each start that was not clean.

  A tenure is the time a node owns the shard.  Tenures, newest first, and the uploads are
  history: what the owner's file held when the tenure began, what it committed since, and
  from where in that list each epoch began; how far each upload reached.

  Keys say nothing about owners.  Recovery finds the newest owner only if epochs go up
  from one owner to the next and nobody else takes snapshots.
-/
import Shardlite.S3.Archive
import Shardlite.Lib.Machine

namespace Shardlite.S3

open Vfs (Bytes CommittedTxn)
open Replication (StreamTxn Positions WalCapture Retention positioned drainCapture)

/-- A change-log object that waits to be uploaded. -/
structure UploadJob where
  key : Key
  txns : List (StreamTxn CommittedTxn)
  tenure : Nat
  /-- How many transactions of the tenure there were. -/
  upTo : Nat

/-- What an upload reached: how much of which tenure, in which epoch. -/
structure Put where
  tenure : Nat
  epoch : Nat
  upTo : Nat
  deriving DecidableEq, Repr

/-- A snapshot that waits to be uploaded; `put` is history, none if the node never owned
    the shard. -/
structure TakenSnapshot where
  key : Key
  db : Image
  put : Option Put

structure ArchivingNode where
  file : Option Image := none
  positions : Positions := .loadOrInit none
  /-- What the position file holds. -/
  positionFile : Positions := .loadOrInit none
  capture : WalCapture CommittedTxn := {}
  /-- The log is left over from before the last start: nothing of it is captured. -/
  leftOver : Bool := false
  queue : List UploadJob := []
  /-- An upload was given up. -/
  failed : Bool := false
  snapshot : Option TakenSnapshot := none

/-- History: an owner's time with the shard. -/
structure Tenure where
  id : Nat
  node : NodeId
  base : Image
  log : List CommittedTxn := []
  /-- Each epoch, newest first, with how much of the log was there when it began. -/
  epochs : List (Nat × Nat)

/-- The nodes and the archive, with the history of tenures and uploads. -/
structure ArchiveNet where
  nodes : NodeId → ArchivingNode := fun _ => {}
  archive : Archive := {}
  tenures : List Tenure := []
  puts : List Put := []

/-- What owners, their uploads and the processes do. -/
inductive ArchiveAct where
  | takeOver (i : NodeId)
  /-- The owner commits. -/
  | commit (txn : CommittedTxn)
  /-- The owner ships what it captured. -/
  | drain
  /-- The first waiting upload of a node is done or given up. -/
  | upload (i : NodeId) (ok : Bool)
  | takeSnapshot (i : NodeId)
  | putSnapshot (i : NodeId) (ok : Bool)
  /-- The process dies and starts again, over a log that is `leftOver` or a new one. -/
  | crash (i : NodeId) (leftOver : Bool)
  /-- The process stops cleanly, its uploads done, and starts again. -/
  | shutdown (i : NodeId) (leftOver : Bool)
  /-- A left-over log is truncated. -/
  | newLog (i : NodeId)

namespace ArchivingNode

variable (n : ArchivingNode)

def start (file : Positions) (leftOver : Bool) : ArchivingNode :=
  { file := n.file, positions := .loadOrInit (some file), positionFile := .loadOrInit (some file)
    leftOver }

end ArchivingNode

def Tenure.image (T : Tenure) : Image := T.log.foldl Image.commit T.base

/-- What it held after `m` transactions of the tenure. -/
def Tenure.imageAt (T : Tenure) (m : Nat) : Image := (T.log.take m).foldl Image.commit T.base

def Tenure.nextEpoch (T : Tenure) (epoch : Nat) : Tenure :=
  { T with epochs := (epoch, T.log.length) :: T.epochs }

namespace ArchiveNet

variable (shard : ShardId) (ret : Retention CommittedTxn) (w : ArchiveNet) (i : NodeId)

def setNode (n : ArchivingNode) : ArchiveNet :=
  { w with nodes := Function.update w.nodes i n }

/-- The file a new owner starts from: its own, or what the archive gives. -/
def startingFile : Image :=
  match (w.nodes i).file with
  | some db => db
  | none =>
    match w.archive.recoverBytes shard with
    | .ok (db, _) => db
    | .error _ => {}

def takeOver : ArchiveNet :=
  if w.tenures.head?.map (·.node) = some i then w
  else
    let db := w.startingFile shard i
    { w.setNode i { w.nodes i with file := some db } with
      tenures := ⟨w.tenures.length, i, db, [], [((w.nodes i).positions.epoch, 0)]⟩ :: w.tenures }

def commit (txn : CommittedTxn) : ArchiveNet :=
  match w.tenures with
  | [] => w
  | T :: past =>
    let n := w.nodes T.node
    { w.setNode T.node { n with
        file := n.file.map (·.commit txn)
        capture := if n.leftOver then n.capture else n.capture.emitCommit ret txn } with
      tenures := { T with log := T.log ++ [txn] } :: past }

/-- The sink queues what it is handed for upload; it refuses once an upload was given up,
    and the positions are handed back. -/
def drain : ArchiveNet :=
  match w.tenures with
  | [] => w
  | T :: _ =>
    let n := w.nodes T.node
    if n.capture.committed.isEmpty then w
    else
      let d := drainCapture ret n.capture n.positions shard (if n.failed then .refuses else .accepts)
      let first := n.positions.nextLsn shard
      w.setNode T.node { n with
        capture := d.capture
        positions := d.positions
        queue := n.queue ++
          [⟨.of n.positions.epoch first, positioned first n.capture.committed, T.id, T.log.length⟩] }

def upload (ok : Bool) : ArchiveNet :=
  match (w.nodes i).queue with
  | [] => w
  | job :: rest =>
    let n := { w.nodes i with queue := rest }
    if ok then
      { w.setNode i n with
        archive := { w.archive with wal := w.archive.wal.insert job.key job.txns }
        puts := ⟨job.tenure, job.key.epoch, job.upTo⟩ :: w.puts }
    else w.setNode i { n with failed := true }

/-- Opening a shard without a file creates an empty one. -/
def takeSnapshot : ArchiveNet :=
  let n := w.nodes i
  let db := n.file.getD {}
  let key := Key.of n.positions.epoch (n.positions.lastAllocated shard)
  let put := (w.tenures.find? (·.node = i)).map fun T => ⟨T.id, key.epoch, T.log.length⟩
  w.setNode i { n with file := some db, snapshot := some ⟨key, db, put⟩ }

def putSnapshot (ok : Bool) : ArchiveNet :=
  match (w.nodes i).snapshot with
  | none => w
  | some s =>
    let n := { w.nodes i with snapshot := none }
    if ok then
      { w.setNode i n with
        archive := { w.archive with snapshots := w.archive.snapshots.insert s.key s.db }
        puts := s.put.toList ++ w.puts }
    else w.setNode i n

def crash (leftOver : Bool) : ArchiveNet :=
  let n := (w.nodes i).start (w.nodes i).positionFile leftOver
  { w.setNode i n with
    tenures := match w.tenures with
      | [] => []
      | T :: past => (if T.node = i then T.nextEpoch n.positions.epoch else T) :: past }

def shutdown (leftOver : Bool) : ArchiveNet :=
  if (w.nodes i).queue.isEmpty then
    w.setNode i ((w.nodes i).start (w.nodes i).positions.markClean leftOver)
  else w

def step (w : ArchiveNet) : ArchiveAct → ArchiveNet
  | .takeOver i => w.takeOver shard i
  | .commit txn => w.commit ret txn
  | .drain => w.drain shard ret
  | .upload i ok => w.upload i ok
  | .takeSnapshot i => w.takeSnapshot shard i
  | .putSnapshot i ok => w.putSnapshot i ok
  | .crash i leftOver => w.crash i leftOver
  | .shutdown i leftOver => w.shutdown i leftOver
  | .newLog i => w.setNode i { w.nodes i with leftOver := false }

def runs (acts : List ArchiveAct) : ArchiveNet := Machine.run (step shard ret) {} acts

/-! ## What must hold of a step -/

/-- A new owner's epoch is above those its predecessor owned the shard in.  An owner
    commits where the log is captured, with no page left out; only the owner takes
    snapshots, and it takes one or stops cleanly only with everything it committed
    shipped. -/
def Ascends (w : ArchiveNet) : ArchiveAct → Prop
  | .takeOver i => ∀ T ∈ w.tenures.head?, T.node ≠ i →
      ∀ x ∈ T.epochs, x.1 < (w.nodes i).positions.epoch
  | .commit txn => ∀ T ∈ w.tenures.head?, (w.nodes T.node).leftOver = false ∧ T.image.Fills txn
  | .takeSnapshot i => ∃ T ∈ w.tenures.head?, T.node = i ∧ (w.nodes i).capture.committed = []
  | .shutdown i _ => ∀ T ∈ w.tenures.head?, T.node = i → (w.nodes i).capture.committed = []
  | _ => True

instance (w : ArchiveNet) (a : ArchiveAct) : Decidable (w.Ascends a) := by
  unfold Ascends
  split <;> infer_instance

end ArchiveNet

/-! ## What belongs to a tenure -/

variable {first epoch : Nat} {txns : List (StreamTxn CommittedTxn)} {db : Image}

namespace Tenure

/-- A change-log object of the tenure: transactions of its log, from where the epoch
    began on. -/
def Logged (T : Tenure) (key : Key) (txns : List (StreamTxn CommittedTxn)) : Prop :=
  ∃ k as, (key.epoch, k) ∈ T.epochs ∧ 0 < key.lsn ∧ as ≠ [] ∧ txns = positioned key.lsn as ∧
    as <+: T.log.drop (k + key.lsn - 1)

def Holds (T : Tenure) (key : Key) (db : Image) : Prop :=
  ∃ k, (key.epoch, k) ∈ T.epochs ∧ k + key.lsn ≤ T.log.length ∧ db = T.imageAt (k + key.lsn)

/-- Everything up to `upTo` was committed, before any later epoch began. -/
def Sent (T : Tenure) (epoch upTo : Nat) : Prop :=
  upTo ≤ T.log.length ∧ ∀ x ∈ T.epochs, epoch < x.1 → upTo ≤ x.2

/-- The `n` transactions from this position on reach up to `upTo`. -/
def Reaches (T : Tenure) (key : Key) (n upTo : Nat) : Prop :=
  ∃ k, (key.epoch, k) ∈ T.epochs ∧ upTo < k + key.lsn + n

structure Grows (T T' : Tenure) : Prop where
  id : T'.id = T.id
  node : T'.node = T.node
  base : T'.base = T.base
  log : T.log <+: T'.log
  epochs : ∀ x ∈ T.epochs, x ∈ T'.epochs
  later : ∀ x ∈ T'.epochs, x ∈ T.epochs ∨ T.log.length ≤ x.2

variable {T T' : Tenure} {key : Key}

theorem Grows.refl (T : Tenure) : T.Grows T :=
  ⟨rfl, rfl, rfl, List.prefix_refl _, fun _ h => h, fun _ h => .inl h⟩

theorem Grows.append (T : Tenure) (txn : CommittedTxn) :
    T.Grows { T with log := T.log ++ [txn] } :=
  ⟨rfl, rfl, rfl, List.prefix_append _ _, fun _ h => h, fun _ h => .inl h⟩

theorem Grows.nextEpoch (T : Tenure) (epoch : Nat) : T.Grows (T.nextEpoch epoch) := by
  refine ⟨rfl, rfl, rfl, List.prefix_refl _, fun _ h => List.mem_cons_of_mem _ h, fun x hx => ?_⟩
  rcases List.mem_cons.1 hx with rfl | hx
  · exact .inr (le_refl _)
  · exact .inl hx

theorem Logged.grow (h : T.Logged key txns) (hg : T.Grows T') : T'.Logged key txns := by
  obtain ⟨k, as, hk, hpos, hne, htxns, has⟩ := h
  obtain ⟨more, hmore⟩ := hg.log
  refine ⟨k, as, hg.epochs _ hk, hpos, hne, htxns, ?_⟩
  rw [← hmore, List.drop_append]
  exact has.trans (List.prefix_append _ _)

theorem imageAt_grow {m : Nat} (hm : m ≤ T.log.length) (hg : T.Grows T') :
    T'.imageAt m = T.imageAt m := by
  obtain ⟨more, hmore⟩ := hg.log
  rw [imageAt, imageAt, ← hmore, List.take_append_of_le_length hm, hg.base]

theorem Holds.grow (h : T.Holds key db) (hg : T.Grows T') : T'.Holds key db := by
  obtain ⟨k, hk, hle, hdb⟩ := h
  exact ⟨k, hg.epochs _ hk, hle.trans hg.log.length_le, hdb.trans (imageAt_grow hle hg).symm⟩

theorem Sent.grow {upTo : Nat} (h : T.Sent epoch upTo) (hg : T.Grows T') :
    T'.Sent epoch upTo := by
  refine ⟨h.1.trans hg.log.length_le, fun x hx hlt => ?_⟩
  rcases hg.later x hx with hx | hle
  · exact h.2 x hx hlt
  · exact h.1.trans hle

theorem Reaches.grow {n upTo : Nat} (h : T.Reaches key n upTo) (hg : T.Grows T') :
    T'.Reaches key n upTo := by
  obtain ⟨k, hk, hlt⟩ := h
  exact ⟨k, hg.epochs _ hk, hlt⟩

theorem Logged.getElem? (h : T.Logged key txns) {t : StreamTxn CommittedTxn} (ht : t ∈ txns) :
    ∃ k, (key.epoch, k) ∈ T.epochs ∧ T.log[k + t.lsn - 1]? = some t.txn := by
  obtain ⟨k, as, hk, hpos, -, rfl, has⟩ := h
  obtain ⟨j, hlsn, hj⟩ := exists_getElem?_of_mem_positioned ht
  refine ⟨k, hk, ?_⟩
  have hdrop : (T.log.drop (k + key.lsn - 1))[j]? = some t.txn := by
    obtain ⟨rest, hrest⟩ := has
    rw [← hrest, List.getElem?_append_left (List.getElem?_eq_some_iff.1 hj).1, hj]
  rw [List.getElem?_drop] at hdrop
  rw [← hdrop]
  congr 1
  omega

end Tenure

/-! ## The invariant -/

/-- A snapshot on its way is what the file of a tenure held at its key, and says so. -/
def TakenSnapshot.Of (s : TakenSnapshot) (tenures : List Tenure) : Prop :=
  ∃ T ∈ tenures, T.Holds s.key s.db ∧ ∃ upTo, s.put = some ⟨T.id, s.key.epoch, upTo⟩ ∧
    T.Sent s.key.epoch upTo ∧ T.Reaches s.key 1 upTo

namespace ArchivingNode

/-- A start that is not clean begins a new epoch, and positions count from 1. -/
structure Counts (shard : ShardId) (n : ArchivingNode) : Prop where
  dirty : n.positionFile.clean = false
  epoch : n.positionFile.epoch = n.positions.epoch
  pos : 0 < n.positions.nextLsn shard

/-- Positions are used only in epochs of a tenure. -/
def Uses (shard : ShardId) (tenures : List Tenure) (i : NodeId) (n : ArchivingNode) : Prop :=
  (n.positions.nextLsn shard = 1 ∧ n.capture.committed = []) ∨
    ∃ T ∈ tenures, T.node = i ∧ ∃ k, (n.positions.epoch, k) ∈ T.epochs

/-- An object is replaced only by one that reaches further. -/
def Fifo (n : ArchivingNode) : Prop :=
  n.queue.Pairwise fun a b => a.key = b.key → a.txns.length ≤ b.txns.length

end ArchivingNode

namespace ArchiveNet

/-- The objects on their way and in the archive belong to tenures, and what an upload
    reached is still there. -/
structure Objects (w : ArchiveNet) : Prop where
  jobs : ∀ i, ∀ job ∈ (w.nodes i).queue, ∃ T ∈ w.tenures, T.id = job.tenure ∧ T.node = i ∧
    T.Logged job.key job.txns ∧ T.Sent job.key.epoch job.upTo ∧
    T.Reaches job.key job.txns.length job.upTo
  taken : ∀ i, ∀ s ∈ (w.nodes i).snapshot, s.Of w.tenures
  wal : ∀ e ∈ w.archive.wal.entries, ∃ T ∈ w.tenures, T.Logged e.1 e.2 ∧
    ∃ p ∈ w.puts, p.tenure = T.id ∧ p.epoch = e.1.epoch
  snapshots : ∀ e ∈ w.archive.snapshots.entries, ∃ T ∈ w.tenures, T.Holds e.1 e.2 ∧
    ∃ p ∈ w.puts, p.tenure = T.id ∧ p.epoch = e.1.epoch
  puts : ∀ p ∈ w.puts, ∃ T ∈ w.tenures, T.id = p.tenure ∧ T.Sent p.epoch p.upTo ∧
    ((∃ e ∈ w.archive.wal.entries, e.1.epoch = p.epoch ∧ T.Reaches e.1 e.2.length p.upTo) ∨
      ∃ e ∈ w.archive.snapshots.entries, e.1.epoch = p.epoch ∧ T.Reaches e.1 1 p.upTo)

/-- The owner's file, and how its log is split into what was shipped in this epoch and
    what was not. -/
structure Owns (shard : ShardId) (w : ArchiveNet) (T : Tenure) : Prop where
  file : (w.nodes T.node).file = some T.image
  shipped : ∃ k past, T.epochs = ((w.nodes T.node).positions.epoch, k) :: past ∧
    k + (w.nodes T.node).positions.nextLsn shard ≤ T.log.length + 1 ∧
    (w.nodes T.node).capture.committed =
      T.log.drop (k + (w.nodes T.node).positions.nextLsn shard - 1)

/-- How tenures follow each other, and that no commit of theirs left a page out. -/
structure Line (tenures : List Tenure) : Prop where
  ids : ∀ T ∈ tenures, T.id < tenures.length
  order : tenures.Pairwise fun T P => P.id < T.id ∧ ∀ x ∈ T.epochs, ∀ y ∈ P.epochs, y.1 < x.1
  epochs : ∀ T ∈ tenures, T.epochs.Pairwise fun x y => y.1 < x.1
  fills : ∀ T ∈ tenures, ∀ m txn, T.log[m]? = some txn → (T.imageAt m).Fills txn

structure Inv (shard : ShardId) (w : ArchiveNet) : Prop extends Line w.tenures where
  objects : w.Objects
  counts : ∀ i, (w.nodes i).Counts shard
  used : ∀ i, (w.nodes i).Uses shard w.tenures i
  owner : ∀ T ∈ w.tenures.head?, w.Owns shard T
  fifo : ∀ i, (w.nodes i).Fifo
  waiting : ∀ e ∈ w.archive.wal.entries, ∀ i, ∀ job ∈ (w.nodes i).queue, job.key = e.1 →
    e.2.length ≤ job.txns.length

variable {k : Nat}

section Recovery

variable {shard : ShardId} {w : ArchiveNet} {T P : Tenure}

/-- Two members of an ordered list are one, or one is before the other. -/
theorem eq_or_of_pairwise {α : Type} {R : α → α → Prop} {l : List α} (h : l.Pairwise R) {a b : α}
    (ha : a ∈ l) (hb : b ∈ l) : a = b ∨ R a b ∨ R b a :=
  List.Pairwise.forall_of_forall_of_flip (R := fun a b => a = b ∨ R a b ∨ R b a)
    (fun _ _ => .inl rfl) (h.imp fun hab => .inr (.inl hab)) (h.imp fun hab => .inr (.inr hab)) ha hb

section

variable (h : w.Inv shard)

include h

section

variable (hT : T ∈ w.tenures)

include hT

theorem Inv.epochs_lt (hP : P ∈ w.tenures)
    (hid : P.id < T.id) : ∀ x ∈ T.epochs, ∀ y ∈ P.epochs, y.1 < x.1 := by
  rcases eq_or_of_pairwise h.order hT hP with rfl | hlt | hlt
  · exact absurd hid (lt_irrefl _)
  · exact hlt.2
  · exact absurd hid hlt.1.asymm

theorem Inv.eq_of_id (hP : P ∈ w.tenures)
    (hid : P.id = T.id) : P = T := by
  rcases eq_or_of_pairwise h.order hT hP with rfl | hlt | hlt
  · rfl
  · exact absurd hid hlt.1.ne
  · exact absurd hid hlt.1.ne'

/-- An epoch belongs to one tenure and begins at one place in it. -/
theorem Inv.epoch_unique (hP : P ∈ w.tenures)
    {k' : Nat} (hk : (epoch, k) ∈ T.epochs) (hk' : (epoch, k') ∈ P.epochs) :
    P = T ∧ k' = k := by
  have hid : P.id = T.id := by
    rcases lt_trichotomy P.id T.id with hlt | heq | hlt
    · exact absurd (h.epochs_lt hT hP hlt _ hk _ hk') (lt_irrefl _)
    · exact heq
    · exact absurd (h.epochs_lt hP hT hlt _ hk' _ hk) (lt_irrefl _)
  obtain rfl := h.eq_of_id hT hP hid
  rcases eq_or_of_pairwise (h.epochs P hP) hk hk' with heq | hlt | hlt
  · exact ⟨rfl, (congrArg Prod.snd heq).symm⟩
  · exact absurd hlt (lt_irrefl _)
  · exact absurd hlt (lt_irrefl _)

/-- The change log of the snapshot's epoch is the log of its tenure from there on. -/
theorem Inv.changeLog_eq {lsn : Nat}
    (hk : (epoch, k) ∈ T.epochs) {as : List CommittedTxn}
    (hlog : w.archive.changeLog epoch lsn = positioned (lsn + 1) as) :
    as <+: T.log.drop (k + lsn) := by
  have hat : ∀ j a, as[j]? = some a → T.log[k + lsn + j]? = some a := by
    intro j a hj
    have hmem : ⟨lsn + 1 + j, a⟩ ∈ w.archive.changeLog epoch lsn := by
      rw [hlog]
      exact mem_positioned_of_getElem? hj
    obtain ⟨-, e, he, hepoch, hte⟩ := Archive.mem_changeLog.1 hmem
    obtain ⟨P, hP, hlogged, -⟩ := h.objects.wal e he
    obtain ⟨k', hk', hget⟩ := hlogged.getElem? hte
    rw [hepoch] at hk'
    obtain ⟨rfl, rfl⟩ := h.epoch_unique hT hP hk hk'
    rw [← hget]
    congr 1
    simp only
    omega
  rw [List.prefix_iff_getElem?]
  intro j hj
  rw [List.getElem?_drop]
  exact hat j _ (List.getElem?_eq_getElem hj)

end

/-- What recovery returns is what the newest archiving owner's file held at some point
    of its tenure, no earlier than any of its uploads reached. -/
theorem Inv.recovers {lsn pages : Nat}
    (hr : w.archive.recoverBytes shard = .ok (db, epoch, lsn, pages)) :
    ∃ T ∈ w.tenures, (∃ p ∈ w.puts, p.tenure = T.id) ∧ (∀ p ∈ w.puts, p.tenure ≤ T.id) ∧
      ∃ m ≤ T.log.length, (∀ p ∈ w.puts, p.tenure = T.id → p.upTo ≤ m) ∧ db = T.imageAt m := by
  obtain ⟨snap, hlatest, hepochs, hlog, hdb⟩ := Archive.recoverBytes_spec hr
  obtain ⟨hmem, hmax⟩ := Archive.latestSnapshot_spec hlatest
  obtain ⟨T, hT, ⟨k, hk, hle, hsnap⟩, p₀, hp₀, hp₀T, -⟩ := h.objects.snapshots _ hmem
  simp only [Key.epoch_of, Key.lsn_of] at hk hle hsnap
  generalize has : (w.archive.changeLog epoch lsn).map (·.txn) = as at hlog hdb
  have hprefix := h.changeLog_eq hT hk hlog
  have htake : ∀ n, (as.take n).foldl Image.commit (T.imageAt (k + lsn)) =
      T.imageAt (k + lsn + (as.take n).length) := by
    intro n
    have hsplit : T.log.take (k + lsn + (as.take n).length) =
        T.log.take (k + lsn) ++ as.take n := by
      rw [List.take_add, ← List.prefix_iff_eq_take.1 ((List.take_prefix n as).trans hprefix)]
    rw [Tenure.imageAt, Tenure.imageAt, hsplit, List.foldl_append]
  have hbound : k + lsn + as.length ≤ T.log.length := by
    have := hprefix.length_le
    rw [List.length_drop] at this
    omega
  -- an archived object of a later epoch would have been found
  have hlater : ∀ p ∈ w.puts, p.epoch ≤ epoch := by
    intro p hp
    obtain ⟨P, -, -, -, ⟨e, he, hepoch, -⟩ | ⟨e, he, hepoch, -⟩⟩ := h.objects.puts p hp
    · exact hepoch ▸ hepochs e he
    · rcases Key.le_iff.1 (hmax e he) with hlt | ⟨heq, -⟩
      · exact hepoch ▸ hlt.le
      · exact hepoch ▸ heq.le
  refine ⟨T, hT, ⟨p₀, hp₀, hp₀T⟩, fun p hp => ?_, k + lsn + as.length, hbound, fun p hp hpT => ?_, ?_⟩
  · obtain ⟨P, hP, hPid, -, hcover⟩ := h.objects.puts p hp
    by_contra hnew
    have hold : ∃ k', (p.epoch, k') ∈ P.epochs := by
      obtain ⟨e, -, hepoch, k', hk', -⟩ | ⟨e, -, hepoch, k', hk', -⟩ := hcover <;>
        exact ⟨k', hepoch ▸ hk'⟩
    obtain ⟨k', hk'⟩ := hold
    have hlt := h.epochs_lt hP hT (by omega) _ hk' _ hk
    exact absurd (hlater p hp) (not_le.2 hlt)
  · obtain ⟨P, hP, hPid, hsent, hcover⟩ := h.objects.puts p hp
    obtain rfl := h.eq_of_id hT hP (hPid.trans hpT)
    rcases (hlater p hp).lt_or_eq with hlt | heq
    · have := hsent.2 _ hk hlt
      simp only at this
      omega
    · obtain ⟨e, he, hepoch, k', hk', hreach⟩ | ⟨e, he, hepoch, k', hk', hreach⟩ := hcover
      · rw [hepoch, heq] at hk'
        obtain ⟨-, rfl⟩ := h.epoch_unique hP hP hk hk'
        obtain ⟨Q, -, hlogged, -⟩ := h.objects.wal e he
        obtain ⟨-, bs, -, -, hne, htxns, -⟩ := hlogged
        obtain ⟨b, hlast⟩ := Replication.exists_getLast?_positioned e.1.lsn hne
        have hlen : e.2.length = bs.length := by rw [htxns, Replication.length_positioned]
        have hbs : 0 < bs.length := List.length_pos_iff.2 hne
        by_cases hin : e.1.lsn + bs.length - 1 ≤ lsn
        · omega
        · have hchange : ⟨e.1.lsn + bs.length - 1, b⟩ ∈ w.archive.changeLog epoch lsn :=
            Archive.mem_changeLog.2 ⟨not_le.1 hin, e, he, hepoch.trans heq,
              htxns ▸ List.mem_of_getLast? hlast⟩
          rw [hlog] at hchange
          have := (Replication.lsn_of_mem_positioned hchange).2
          simp only at this
          omega
      · rw [hepoch, heq] at hk'
        obtain ⟨-, rfl⟩ := h.epoch_unique hP hP hk hk'
        have hlsn : e.1.lsn ≤ lsn := by
          rcases Key.le_iff.1 (hmax e he) with hlt | ⟨-, hle⟩
          · rw [hepoch, heq] at hlt
            exact absurd hlt (lt_irrefl _)
          · exact hle
        omega
  · have hall := htake as.length
    rw [List.take_length] at hall
    rw [hdb, hsnap, hall]
    -- every transaction of the tenure left no page out
    intro front last has
    have hfront := htake front.length
    rw [has, List.take_left] at hfront
    rw [hsnap, hfront]
    refine h.fills T hT _ last ?_
    have hget : as[front.length]? = some last := by
      rw [has, List.getElem?_append_right (le_refl _), Nat.sub_self]
      rfl
    have hlt := (List.getElem?_eq_some_iff.1 hget).1
    obtain ⟨rest, hrest⟩ := hprefix
    rw [← List.getElem?_drop, ← hrest, List.getElem?_append_left hlt, hget]

end

end Recovery

/-! ## Steps -/

section Steps

variable {shard : ShardId} {ret : Retention CommittedTxn} {w w' : ArchiveNet} {i : NodeId}
  {n : ArchivingNode} {T T' : Tenure} {past tenures : List Tenure}

theorem setNode_self (n : ArchivingNode) : (w.setNode i n).nodes i = n := Function.update_self ..

theorem setNode_of_ne {j : NodeId} (n : ArchivingNode) (h : j ≠ i) :
    (w.setNode i n).nodes j = w.nodes j := Function.update_of_ne h _ _

/-- What holds of the changed node and of the nodes as they were holds of all. -/
theorem forall_setNode {P : NodeId → ArchivingNode → Prop} (hi : P i n)
    (h : ∀ j, P j (w.nodes j)) (j : NodeId) : P j ((w.setNode i n).nodes j) := by
  by_cases hj : j = i
  · subst hj
    rw [setNode_self]
    exact hi
  · rw [setNode_of_ne n hj]
    exact h j

/-- Nothing reaches the archive and nothing new is on its way. -/
structure Quiet (w w' : ArchiveNet) : Prop where
  tenures : ∀ T ∈ w.tenures, ∃ T' ∈ w'.tenures, T.Grows T'
  archive : w'.archive = w.archive
  puts : w'.puts = w.puts
  queue : ∀ i, (w'.nodes i).queue.Sublist (w.nodes i).queue
  snapshot : ∀ i, ∀ s ∈ (w'.nodes i).snapshot, s ∈ (w.nodes i).snapshot

theorem Objects.grow (h : w.Objects) (hq : Quiet w w') : w'.Objects where
  jobs i job hjob := by
    obtain ⟨T, hT, hid, hnode, hlogged, hsent, hreach⟩ := h.jobs i job ((hq.queue i).subset hjob)
    obtain ⟨T', hT', hg⟩ := hq.tenures T hT
    exact ⟨T', hT', hg.id.trans hid, hg.node.trans hnode, hlogged.grow hg, hsent.grow hg,
      hreach.grow hg⟩
  taken i s hs := by
    obtain ⟨T, hT, hholds, upTo, hput, hsent, hreach⟩ := h.taken i s (hq.snapshot i s hs)
    obtain ⟨T', hT', hg⟩ := hq.tenures T hT
    exact ⟨T', hT', hholds.grow hg, upTo, hg.id ▸ hput, hsent.grow hg, hreach.grow hg⟩
  wal e he := by
    rw [hq.archive] at he
    rw [hq.puts]
    obtain ⟨T, hT, hlogged, p, hp, hpT, hpe⟩ := h.wal e he
    obtain ⟨T', hT', hg⟩ := hq.tenures T hT
    exact ⟨T', hT', hlogged.grow hg, p, hp, hpT.trans hg.id.symm, hpe⟩
  snapshots e he := by
    rw [hq.archive] at he
    rw [hq.puts]
    obtain ⟨T, hT, hholds, p, hp, hpT, hpe⟩ := h.snapshots e he
    obtain ⟨T', hT', hg⟩ := hq.tenures T hT
    exact ⟨T', hT', hholds.grow hg, p, hp, hpT.trans hg.id.symm, hpe⟩
  puts p hp := by
    rw [hq.puts] at hp
    rw [hq.archive]
    obtain ⟨T, hT, hid, hsent, hcover⟩ := h.puts p hp
    obtain ⟨T', hT', hg⟩ := hq.tenures T hT
    refine ⟨T', hT', hg.id.trans hid, hsent.grow hg, ?_⟩
    exact hcover.imp (fun ⟨e, he, heq, hr⟩ => ⟨e, he, heq, hr.grow hg⟩)
      fun ⟨e, he, heq, hr⟩ => ⟨e, he, heq, hr.grow hg⟩

theorem Inv.fifo_quiet (h : w.Inv shard) (hq : Quiet w w') (i : NodeId) : (w'.nodes i).Fifo :=
  (h.fifo i).sublist (hq.queue i)

theorem Inv.waiting_quiet (h : w.Inv shard) (hq : Quiet w w') :
    ∀ e ∈ w'.archive.wal.entries, ∀ i, ∀ job ∈ (w'.nodes i).queue, job.key = e.1 →
      e.2.length ≤ job.txns.length := by
  intro e he i job hjob
  rw [hq.archive] at he
  exact h.waiting e he i job ((hq.queue i).subset hjob)

theorem Quiet.uses (hq : Quiet w w') (h : n.Uses shard w.tenures i) :
    n.Uses shard w'.tenures i := by
  refine h.imp_right fun ⟨T, hT, hnode, k, hk⟩ => ?_
  obtain ⟨T', hT', hg⟩ := hq.tenures T hT
  exact ⟨T', hT', hg.node.trans hnode, k, hg.epochs _ hk⟩

theorem quiet_setNode (hgrow : ∀ P ∈ w.tenures, ∃ P' ∈ tenures, P.Grows P')
    (hqueue : n.queue.Sublist (w.nodes i).queue)
    (hsnapshot : ∀ s ∈ n.snapshot, s ∈ (w.nodes i).snapshot) :
    Quiet w { w.setNode i n with tenures } :=
  ⟨hgrow, rfl, rfl,
    forall_setNode (P := fun j n => n.queue.Sublist (w.nodes j).queue) hqueue fun _ => .refl _,
    forall_setNode (P := fun j n => ∀ s ∈ n.snapshot, s ∈ (w.nodes j).snapshot) hsnapshot
      fun _ _ hs => hs⟩

theorem owns_setNode (hfile : n.file = some T.image)
    (hshipped : ∃ k past, T.epochs = (n.positions.epoch, k) :: past ∧
      k + n.positions.nextLsn shard ≤ T.log.length + 1 ∧
      n.capture.committed = T.log.drop (k + n.positions.nextLsn shard - 1)) :
    ({ w.setNode T.node n with tenures } : ArchiveNet).Owns shard T := by
  have hself : ({ w.setNode T.node n with tenures } : ArchiveNet).nodes T.node = n := setNode_self n
  constructor
  · rw [hself]
    exact hfile
  · rw [hself]
    exact hshipped

/-- A change of one node, while the tenures go on and nothing new is on its way. -/
theorem Inv.setNode (h : w.Inv shard) (hgrow : ∀ P ∈ w.tenures, ∃ P' ∈ tenures, P.Grows P')
    (hline : Line tenures) (hqueue : n.queue.Sublist (w.nodes i).queue)
    (hsnapshot : ∀ s ∈ n.snapshot, s ∈ (w.nodes i).snapshot)
    (hcounts : n.Counts shard) (hused : n.Uses shard tenures i)
    (howner : ∀ T ∈ tenures.head?, ({ w.setNode i n with tenures } : ArchiveNet).Owns shard T) :
    ({ w.setNode i n with tenures } : ArchiveNet).Inv shard := by
  have hq := quiet_setNode hgrow hqueue hsnapshot
  exact
    { hline with
      objects := h.objects.grow hq
      counts := forall_setNode (P := fun _ n => n.Counts shard) hcounts h.counts
      used := forall_setNode (P := fun j n => n.Uses shard tenures j) hused
        fun j => hq.uses (h.used j)
      owner := howner
      fifo := h.fifo_quiet hq
      waiting := h.waiting_quiet hq }

theorem Inv.takeOver (h : w.Inv shard) (hok : w.Ascends (.takeOver i)) :
    (w.takeOver shard i).Inv shard := by
  unfold ArchiveNet.takeOver
  split_ifs with hown
  · exact h
  -- the predecessor's epochs are above those of every tenure before it
  have hnew : ∀ P ∈ w.tenures, ∀ y ∈ P.epochs, y.1 < (w.nodes i).positions.epoch := by
    intro P hP y hy
    cases hten : w.tenures with
    | nil =>
      rw [hten] at hP
      cases hP
    | cons T past =>
      have hhead : w.tenures.head? = some T := by rw [hten]; rfl
      have hnode : T.node ≠ i := fun heq => hown (by rw [hhead]; exact congrArg some heq)
      rw [hten] at hP
      rcases List.mem_cons.1 hP with rfl | hP
      · exact hok P hhead hnode y hy
      · obtain ⟨k, rest, hepochs, -⟩ := (h.owner T hhead).shipped
        have hx : ((w.nodes T.node).positions.epoch, k) ∈ T.epochs :=
          hepochs ▸ List.mem_cons_self
        have horder := h.order
        rw [hten] at horder
        have hlt := ((List.pairwise_cons.1 horder).1 P hP).2 _ hx y hy
        exact hlt.trans (hok T hhead hnode _ hx)
  have hfresh : (w.nodes i).positions.nextLsn shard = 1 ∧ (w.nodes i).capture.committed = [] := by
    refine (h.used i).resolve_right ?_
    rintro ⟨P, hP, -, k, hk⟩
    exact lt_irrefl _ (hnew P hP _ hk)
  refine h.setNode (fun T hT => ⟨T, List.mem_cons_of_mem _ hT, .refl T⟩)
    ⟨fun T hT => ?_, ?_, fun T hT => ?_, fun T hT => ?_⟩ (.refl _) (fun _ hs => hs) { h.counts i with }
    (.inl hfresh) fun T hT => ?_
  · rw [List.length_cons]
    rcases List.mem_cons.1 hT with rfl | hT
    · exact Nat.lt_succ_self _
    · exact (h.ids T hT).trans (Nat.lt_succ_self _)
  · refine List.pairwise_cons.2 ⟨fun P hP => ⟨h.ids P hP, fun x hx y hy => ?_⟩, h.order⟩
    obtain rfl := List.mem_singleton.1 hx
    exact hnew P hP y hy
  · rcases List.mem_cons.1 hT with rfl | hT
    · exact List.pairwise_singleton ..
    · exact h.epochs T hT
  · rcases List.mem_cons.1 hT with rfl | hT
    · exact fun m txn hm => absurd hm (by simp)
    · exact h.fills T hT
  · cases hT
    refine owns_setNode (T := ⟨_, i, _, [], [(_, 0)]⟩) rfl ⟨0, [], rfl, ?_, ?_⟩
    · show 0 + (w.nodes i).positions.nextLsn shard ≤ 0 + 1
      rw [hfresh.1]
    · exact hfresh.2.trans List.drop_nil.symm

theorem grows_head (hten : w.tenures = T :: past) (hg : T.Grows T') :
    ∀ P ∈ w.tenures, ∃ P' ∈ T' :: past, P.Grows P' := by
  intro P hP
  rw [hten] at hP
  rcases List.mem_cons.1 hP with rfl | hP
  · exact ⟨T', List.mem_cons_self, hg⟩
  · exact ⟨P, List.mem_cons_of_mem _ hP, .refl P⟩

/-- The newest tenure goes on, its new epochs above the old ones. -/
theorem Inv.line_head (h : w.Inv shard) (hten : w.tenures = T :: past) (hid : T'.id = T.id)
    (hepochs : ∀ x ∈ T'.epochs, ∃ y ∈ T.epochs, y.1 ≤ x.1)
    (hpairs : T'.epochs.Pairwise fun x y => y.1 < x.1)
    (hfills : ∀ m txn, T'.log[m]? = some txn → (T'.imageAt m).Fills txn) : Line (T' :: past) := by
  have hids := h.ids
  have horder := h.order
  rw [hten] at hids horder
  obtain ⟨hnew, hpast⟩ := List.pairwise_cons.1 horder
  refine ⟨fun P hP => ?_, ?_, fun P hP => ?_, fun P hP => ?_⟩
  · rcases List.mem_cons.1 hP with rfl | hP
    · exact hid ▸ hids T List.mem_cons_self
    · exact hids P (List.mem_cons_of_mem _ hP)
  · refine List.pairwise_cons.2 ⟨fun P hP => ⟨hid ▸ (hnew P hP).1, fun x hx y hy => ?_⟩, hpast⟩
    obtain ⟨z, hz, hle⟩ := hepochs x hx
    exact ((hnew P hP).2 z hz y hy).trans_le hle
  · rcases List.mem_cons.1 hP with rfl | hP
    · exact hpairs
    · exact h.epochs P (hten ▸ List.mem_cons_of_mem _ hP)
  · rcases List.mem_cons.1 hP with rfl | hP
    · exact hfills
    · exact h.fills P (hten ▸ List.mem_cons_of_mem _ hP)

/-- A commit that leaves no page out, after others that left none. -/
theorem Tenure.fills_append {txn : CommittedTxn}
    (h : ∀ m t, T.log[m]? = some t → (T.imageAt m).Fills t) (hfills : T.image.Fills txn) (m : Nat)
    (t : CommittedTxn) (hm : (T.log ++ [txn])[m]? = some t) :
    (Tenure.imageAt { T with log := T.log ++ [txn] } m).Fills t := by
  have hlt := (List.getElem?_eq_some_iff.1 hm).1
  rw [List.length_append, List.length_singleton] at hlt
  rw [Tenure.imageAt_grow (Nat.lt_succ_iff.1 hlt) (.append T txn)]
  by_cases hnew : m < T.log.length
  · rw [List.getElem?_append_left hnew] at hm
    exact h m t hm
  · obtain rfl : m = T.log.length := by omega
    rw [List.getElem?_append_right (le_refl _), Nat.sub_self] at hm
    cases hm
    rw [Tenure.imageAt, List.take_length]
    exact hfills

theorem Inv.commit (h : w.Inv shard) {txn : CommittedTxn} (hok : w.Ascends (.commit txn)) :
    (w.commit ret txn).Inv shard := by
  unfold ArchiveNet.commit
  split
  · exact h
  next T past hten =>
  have hhead : w.tenures.head? = some T := by rw [hten]; rfl
  obtain ⟨hlog, hfills⟩ := hok T hhead
  have howns := h.owner T hhead
  obtain ⟨k, rest, hepochs, hbound, hcapture⟩ := howns.shipped
  have hT : T ∈ w.tenures := hten ▸ List.mem_cons_self
  simp only [hlog, Bool.false_eq_true, if_false]
  refine h.setNode (grows_head hten (.append T txn))
    (h.line_head hten rfl (fun x hx => ⟨x, hx, le_refl _⟩) (h.epochs T hT)
      (Tenure.fills_append (h.fills T hT) hfills)) (.refl _) (fun _ hs => hs)
    { h.counts T.node with } (.inr ⟨_, List.mem_cons_self, rfl, k, hepochs ▸ List.mem_cons_self⟩)
    fun P hP => ?_
  cases hP
  refine owns_setNode (T := { T with log := T.log ++ [txn] }) ?_ ⟨k, rest, hepochs, ?_, ?_⟩
  · show (w.nodes T.node).file.map (·.commit txn) = some ((T.log ++ [txn]).foldl Image.commit T.base)
    rw [howns.file, List.foldl_append]
    rfl
  · show k + (w.nodes T.node).positions.nextLsn shard ≤ (T.log ++ [txn]).length + 1
    rw [List.length_append]
    omega
  · show (w.nodes T.node).capture.committed ++ [txn] =
      (T.log ++ [txn]).drop (k + (w.nodes T.node).positions.nextLsn shard - 1)
    rw [List.drop_append_of_le_length (by omega), ← hcapture]

theorem Inv.length_le (h : w.Inv shard) (hT : T ∈ w.tenures) {key : Key}
    (hk : (key.epoch, k) ∈ T.epochs) {P : Tenure} (hP : P ∈ w.tenures)
    (hlogged : P.Logged key txns) :
    txns.length ≤ (T.log.drop (k + key.lsn - 1)).length := by
  obtain ⟨k', as, hk', -, -, rfl, has⟩ := hlogged
  obtain ⟨rfl, rfl⟩ := h.epoch_unique hT hP hk hk'
  rw [Replication.length_positioned]
  exact has.length_le

/-- Nothing committed is ahead of the newest epoch of the newest tenure. -/
theorem Inv.sent_now (h : w.Inv shard) (hT : T ∈ w.tenures) {rest : List (Nat × Nat)}
    (hepochs : T.epochs = (epoch, k) :: rest) :
    T.Sent epoch T.log.length := by
  refine ⟨le_refl _, fun x hx hlt => ?_⟩
  have hpairs := h.epochs T hT
  rw [hepochs] at hpairs hx
  rcases List.mem_cons.1 hx with rfl | hx
  · exact absurd hlt (lt_irrefl _)
  · exact absurd hlt ((List.pairwise_cons.1 hpairs).1 x hx).asymm

theorem drainCapture_spec (ret : Retention CommittedTxn) {c : WalCapture CommittedTxn}
    {p : Positions} (hne : c.committed ≠ []) (hpos : 0 < p.nextLsn shard) (failed : Bool) :
    (drainCapture ret c p shard (if failed then .refuses else .accepts)).positions.epoch = p.epoch ∧
      let d := drainCapture ret c p shard (if failed then .refuses else .accepts)
      (d.positions.nextLsn shard = p.nextLsn shard + c.committed.length ∧ d.capture.committed = []) ∨
        (d.positions.nextLsn shard = p.nextLsn shard ∧ d.capture.committed = c.committed) := by
  have hempty : c.committed.isEmpty = false := by
    cases hc : c.committed with
    | nil => exact absurd hc hne
    | cons t ts => rfl
  cases failed with
  | true =>
    simp only [drainCapture, hempty, if_true, if_false, Bool.false_eq_true]
    refine ⟨by rw [Positions.rollback_epoch, Positions.allocate_epoch], .inr ⟨?_, ?_⟩⟩
    · exact Positions.nextLsn_rollback_allocate hpos
    · rw [WalCapture.committed_requeue, WalCapture.committed_drained, List.append_nil]
  | false =>
    simp only [drainCapture, hempty, if_false, Bool.false_eq_true]
    refine ⟨by rw [Positions.allocate_epoch], .inl ⟨?_, ?_⟩⟩
    · rw [Positions.nextLsn_allocate, if_pos rfl]
    · exact WalCapture.committed_drained ret c

theorem Inv.drain (h : w.Inv shard) : (w.drain shard ret).Inv shard := by
  unfold ArchiveNet.drain
  split
  · exact h
  next T past hten =>
  by_cases hempty : (w.nodes T.node).capture.committed.isEmpty = true
  · rw [if_pos hempty]
    exact h
  rw [if_neg hempty]
  have hne : (w.nodes T.node).capture.committed ≠ [] := fun hnil => hempty (by rw [hnil]; rfl)
  have hT : T ∈ w.tenures := hten ▸ List.mem_cons_self
  have howns := h.owner T (by rw [hten]; rfl)
  obtain ⟨k, rest, hepochs, hbound, hcapture⟩ := howns.shipped
  have hcounts := h.counts T.node
  have hfirst := hcounts.pos
  obtain ⟨hepoch, hshipped⟩ := drainCapture_spec ret hne hfirst (w.nodes T.node).failed
  generalize drainCapture ret (w.nodes T.node).capture (w.nodes T.node).positions shard
    (if (w.nodes T.node).failed = true then .refuses else .accepts) = d at hepoch hshipped ⊢
  let job : UploadJob :=
   ⟨.of (w.nodes T.node).positions.epoch ((w.nodes T.node).positions.nextLsn shard),
    positioned ((w.nodes T.node).positions.nextLsn shard) (w.nodes T.node).capture.committed, T.id,
    T.log.length⟩
  let n : ArchivingNode := { w.nodes T.node with
    capture := d.capture, positions := d.positions, queue := (w.nodes T.node).queue ++ [job] }
  have hk : (job.key.epoch, k) ∈ T.epochs := by
    rw [hepochs]
    exact List.mem_cons_self
  have hlen : k + (w.nodes T.node).positions.nextLsn shard +
      (w.nodes T.node).capture.committed.length = T.log.length + 1 := by
    rw [hcapture, List.length_drop]
    omega
  -- the queue grows by this one job
  have hqueue : ∀ j, ∀ a ∈ ((w.setNode T.node n).nodes j).queue,
      a ∈ (w.nodes j).queue ∨ j = T.node ∧ a = job :=
    forall_setNode (P := fun j n => ∀ a ∈ n.queue, a ∈ (w.nodes j).queue ∨ j = T.node ∧ a = job)
      (fun a ha => (List.mem_append.1 ha).imp_right fun ha => ⟨rfl, List.mem_singleton.1 ha⟩)
      fun _ _ ha => .inl ha
  have hlonger : ∀ P ∈ w.tenures, ∀ txns, P.Logged job.key txns → txns.length ≤ job.txns.length := by
    intro P hP txns hlogged
    have hle : txns.length ≤
        (T.log.drop (k + (w.nodes T.node).positions.nextLsn shard - 1)).length :=
      h.length_le hT hk hP hlogged
    rw [← hcapture] at hle
    exact hle.trans (Replication.length_positioned _ _).ge
  show Inv shard (w.setNode T.node n)
  refine ⟨h.toLine, ⟨fun j a ha => ?_, ?_, h.objects.wal, h.objects.snapshots, h.objects.puts⟩,
    ?_, ?_, fun P hP => ?_, ?_, fun e he j a ha hkey => ?_⟩
  · rcases hqueue j a ha with ha | ⟨rfl, rfl⟩
    · exact h.objects.jobs j a ha
    · refine ⟨T, hT, rfl, rfl, ⟨k, _, hk, hfirst, hne, rfl, ?_⟩, h.sent_now hT hepochs, k, hk, ?_⟩
      · exact hcapture ▸ List.prefix_refl _
      · show T.log.length < k + (w.nodes T.node).positions.nextLsn shard + job.txns.length
        rw [show job.txns.length = (w.nodes T.node).capture.committed.length from
          Replication.length_positioned ..]
        omega
  · exact forall_setNode (P := fun _ n => ∀ s ∈ n.snapshot, s.Of w.tenures)
      (h.objects.taken T.node) h.objects.taken
  · refine forall_setNode (P := fun _ n => n.Counts shard) ?_ h.counts
    refine ⟨hcounts.dirty, hcounts.epoch.trans hepoch.symm, ?_⟩
    show 0 < d.positions.nextLsn shard
    omega
  · exact forall_setNode (P := fun j n => n.Uses shard w.tenures j)
      (.inr ⟨T, hT, rfl, k, by rw [show n.positions.epoch = _ from hepoch]; exact hk⟩) h.used
  · obtain rfl : T = P := Option.some.inj (by rw [← hP]; exact hten ▸ rfl)
    refine owns_setNode howns.file ⟨k, rest, ?_, ?_⟩
    · rw [show n.positions.epoch = _ from hepoch]
      exact hepochs
    · rw [show n.positions = d.positions from rfl, show n.capture = d.capture from rfl]
      rcases hshipped with ⟨hnext, hcap⟩ | ⟨hnext, hcap⟩
      · rw [hnext, hcap]
        refine ⟨by omega, (List.drop_eq_nil_of_le ?_).symm⟩
        omega
      · rw [hnext, hcap]
        exact ⟨hbound, hcapture⟩
  · refine forall_setNode (P := fun _ n => n.Fifo) ?_ h.fifo
    refine List.pairwise_append.2 ⟨h.fifo T.node, List.pairwise_singleton .., fun a ha b hb hkey => ?_⟩
    obtain rfl := List.mem_singleton.1 hb
    obtain ⟨P, hP, -, -, hlogged, -⟩ := h.objects.jobs T.node a ha
    exact hlonger P hP a.txns (hkey ▸ hlogged)
  · rcases hqueue j a ha with ha | ⟨rfl, rfl⟩
    · exact h.waiting e he j a ha hkey
    · obtain ⟨P, hP, hlogged, -⟩ := h.objects.wal e he
      exact hlonger P hP e.2 (hkey ▸ hlogged)

structure SameFiles (w w' : ArchiveNet) : Prop where
  tenures : w'.tenures = w.tenures
  nodes : ∀ j, (w'.nodes j).file = (w.nodes j).file ∧
    (w'.nodes j).positions = (w.nodes j).positions ∧
    (w'.nodes j).positionFile = (w.nodes j).positionFile ∧
    (w'.nodes j).capture = (w.nodes j).capture

theorem sameFiles_setNode (hfile : n.file = (w.nodes i).file)
    (hpos : n.positions = (w.nodes i).positions) (hpf : n.positionFile = (w.nodes i).positionFile)
    (hcap : n.capture = (w.nodes i).capture) : SameFiles w (w.setNode i n) :=
  ⟨rfl, forall_setNode (P := fun j n => n.file = (w.nodes j).file ∧
    n.positions = (w.nodes j).positions ∧ n.positionFile = (w.nodes j).positionFile ∧
    n.capture = (w.nodes j).capture) ⟨hfile, hpos, hpf, hcap⟩ fun _ => ⟨rfl, rfl, rfl, rfl⟩⟩

theorem Inv.of_sameFiles (h : w.Inv shard) (hs : SameFiles w w') (hobjects : w'.Objects)
    (hfifo : ∀ i, (w'.nodes i).Fifo)
    (hwaiting : ∀ e ∈ w'.archive.wal.entries, ∀ i, ∀ job ∈ (w'.nodes i).queue, job.key = e.1 →
      e.2.length ≤ job.txns.length) : w'.Inv shard := by
  refine ⟨hs.tenures ▸ h.toLine, hobjects, fun j => ?_, fun j => ?_, fun T hT => ?_, hfifo,
    hwaiting⟩
  · obtain ⟨-, hpos, hfile, -⟩ := hs.nodes j
    obtain ⟨hdirty, hepoch, hfirst⟩ := h.counts j
    exact ⟨hfile ▸ hdirty, hfile ▸ hpos ▸ hepoch, hpos ▸ hfirst⟩
  · obtain ⟨-, hpos, -, hcap⟩ := hs.nodes j
    unfold ArchivingNode.Uses
    rw [hpos, hcap, hs.tenures]
    exact h.used j
  · rw [hs.tenures] at hT
    obtain ⟨hfile, hpos, -, hcap⟩ := hs.nodes T.node
    obtain ⟨hown, hshipped⟩ := h.owner T hT
    refine ⟨hfile.trans hown, ?_⟩
    rw [hpos, hcap]
    exact hshipped

theorem Inv.upload (h : w.Inv shard) (i : NodeId) (ok : Bool) : (w.upload i ok).Inv shard := by
  unfold ArchiveNet.upload
  split
  · exact h
  next job rest hqueue =>
  have hjob : job ∈ (w.nodes i).queue := hqueue ▸ List.mem_cons_self
  obtain ⟨T, hT, hid, hnode, hlogged, hsent, hreach⟩ := h.objects.jobs i job hjob
  have hsub : rest.Sublist (w.nodes i).queue := hqueue ▸ List.sublist_cons_self _ _
  split_ifs with hok
  · let n : ArchivingNode := { w.nodes i with queue := rest }
    have hfiles : SameFiles w (w.setNode i n) := sameFiles_setNode rfl rfl rfl rfl
    have hq : Quiet w (w.setNode i n) :=
      quiet_setNode (fun P hP => ⟨P, hP, .refl P⟩) hsub fun _ hs => hs
    refine h.of_sameFiles ⟨rfl, hfiles.nodes⟩ ⟨fun j a ha => ?_, fun j s hs => ?_, fun e he => ?_,
      fun e he => ?_, fun p hp => ?_⟩ (fun j => (h.fifo j).sublist (hq.queue j))
      fun e he j a ha hkey => ?_
    · exact h.objects.jobs j a ((hq.queue j).subset ha)
    · exact h.objects.taken j s (hq.snapshot j s hs)
    · rcases OrdMap.mem_entries_insert he with rfl | ⟨-, he⟩
      · exact ⟨T, hT, hlogged, _, List.mem_cons_self, hid.symm, rfl⟩
      · obtain ⟨P, hP, hl, p, hp, hrest⟩ := h.objects.wal e he
        exact ⟨P, hP, hl, p, List.mem_cons_of_mem _ hp, hrest⟩
    · obtain ⟨P, hP, hholds, p, hp, hrest⟩ := h.objects.snapshots e he
      exact ⟨P, hP, hholds, p, List.mem_cons_of_mem _ hp, hrest⟩
    · rcases List.mem_cons.1 hp with rfl | hp
      · exact ⟨T, hT, hid, hsent, .inl ⟨_, OrdMap.mem_insert_self .., rfl, hreach⟩⟩
      · obtain ⟨P, hP, hPid, hPsent, hcover⟩ := h.objects.puts p hp
        refine ⟨P, hP, hPid, hPsent, hcover.imp_left fun ⟨e, he, hepoch, k, hk, hlt⟩ => ?_⟩
        by_cases hkey : e.1 = job.key
        · have hlen := h.waiting e he i job hjob hkey.symm
          refine ⟨(job.key, job.txns), OrdMap.mem_insert_self .., hkey ▸ hepoch, k, hkey ▸ hk, ?_⟩
          show p.upTo < k + job.key.lsn + job.txns.length
          rw [← hkey]
          omega
        · exact ⟨e, OrdMap.mem_insert_of_ne hkey he, hepoch, k, hk, hlt⟩
    · have ha' := (hq.queue j).subset ha
      rcases OrdMap.mem_entries_insert he with rfl | ⟨-, he⟩
      · by_cases hj : j = i
        · have hfifo := h.fifo i
          rw [ArchivingNode.Fifo, hqueue] at hfifo
          rw [hj, setNode_self] at ha
          exact (List.pairwise_cons.1 hfifo).1 a ha hkey.symm
        · -- the same key is of the same tenure, and so of the same node
          obtain ⟨P, hP, -, hPnode, ⟨k', -, hk', -⟩, -⟩ := h.objects.jobs j a ha'
          obtain ⟨k, -, hk, -⟩ := hlogged
          rw [show a.key = job.key from hkey] at hk'
          obtain ⟨rfl, -⟩ := h.epoch_unique hT hP hk hk'
          exact absurd (hPnode.symm.trans hnode) hj
      · exact h.waiting e he j a ha' hkey
  · have hq : Quiet w (w.setNode i { w.nodes i with queue := rest, failed := true }) :=
      quiet_setNode (fun P hP => ⟨P, hP, .refl P⟩) hsub fun _ hs => hs
    exact h.of_sameFiles (sameFiles_setNode rfl rfl rfl rfl) (h.objects.grow hq) (h.fifo_quiet hq)
      (h.waiting_quiet hq)

theorem lastAllocated_eq (p : Positions) : p.lastAllocated shard = p.nextLsn shard - 1 := by
  unfold Positions.lastAllocated Positions.nextLsn
  cases p.next.get? shard <;> rfl

section

variable (h : w.Inv shard)

include h

theorem Inv.takeSnapshot (hok : w.Ascends (.takeSnapshot i)) :
    (w.takeSnapshot shard i).Inv shard := by
  obtain ⟨T, hhead, rfl, hshipped⟩ := hok
  obtain ⟨past, hten⟩ : ∃ past, w.tenures = T :: past := ⟨_, List.eq_cons_of_mem_head? hhead⟩
  have hT : T ∈ w.tenures := hten ▸ List.mem_cons_self
  have howns := h.owner T hhead
  obtain ⟨k, rest, hepochs, hbound, hcapture⟩ := howns.shipped
  have hfirst := (h.counts T.node).pos
  -- everything is shipped, so the next position is the first after the log
  have hall : k + (w.nodes T.node).positions.nextLsn shard = T.log.length + 1 := by
    have hnil := List.drop_eq_nil_iff.1 (hcapture.symm.trans hshipped)
    omega
  have hfind : w.tenures.find? (fun P => P.node = T.node) = some T := by
    rw [hten]
    exact List.find?_cons_of_pos (decide_eq_true rfl)
  unfold ArchiveNet.takeSnapshot
  simp only [howns.file, Option.getD_some, hfind, Option.map_some]
  let key := Key.of (w.nodes T.node).positions.epoch
    ((w.nodes T.node).positions.lastAllocated shard)
  let n : ArchivingNode := { w.nodes T.node with
    file := some T.image, snapshot := some ⟨key, T.image, some ⟨T.id, key.epoch, T.log.length⟩⟩ }
  have hqueue : ∀ j, ((w.setNode T.node n).nodes j).queue = (w.nodes j).queue :=
    forall_setNode (P := fun j n => n.queue = (w.nodes j).queue) rfl fun _ => rfl
  have hk : (key.epoch, k) ∈ T.epochs := hepochs ▸ List.mem_cons_self
  have hat : k + key.lsn = T.log.length := by
    show k + (w.nodes T.node).positions.lastAllocated shard = _
    rw [lastAllocated_eq]
    omega
  refine h.of_sameFiles (sameFiles_setNode (n := n) howns.file.symm rfl rfl rfl)
    ⟨fun j a ha => ?_, ?_, h.objects.wal, h.objects.snapshots, h.objects.puts⟩
    (fun j => by rw [ArchivingNode.Fifo, hqueue j]; exact h.fifo j)
    fun e he j a ha => h.waiting e he j a (hqueue j ▸ ha)
  · exact h.objects.jobs j a (hqueue j ▸ ha)
  · refine forall_setNode (P := fun _ n => ∀ s ∈ n.snapshot, s.Of w.tenures) (fun a ha => ?_)
      h.objects.taken
    cases ha
    refine ⟨T, hT, ⟨k, hk, hat.le, ?_⟩, _, rfl, h.sent_now hT hepochs, k, hk, ?_⟩
    · rw [hat, Tenure.imageAt, List.take_length]
      rfl
    · show T.log.length < k + key.lsn + 1
      omega

theorem Inv.putSnapshot (i : NodeId) (ok : Bool) :
    (w.putSnapshot i ok).Inv shard := by
  unfold ArchiveNet.putSnapshot
  split
  · exact h
  next s hsnapshot =>
  obtain ⟨T, hT, hholds, upTo, hput, hsent, hreach⟩ := h.objects.taken i s hsnapshot
  let n : ArchivingNode := { w.nodes i with snapshot := none }
  have hfiles : SameFiles w (w.setNode i n) := sameFiles_setNode rfl rfl rfl rfl
  have hq : Quiet w (w.setNode i n) :=
    quiet_setNode (fun P hP => ⟨P, hP, .refl P⟩) (.refl _) nofun
  simp only [hput, Option.toList_some, List.singleton_append]
  split_ifs
  · refine h.of_sameFiles ⟨rfl, hfiles.nodes⟩ ⟨fun j a ha => ?_, fun j a ha => ?_, fun e he => ?_,
      fun e he => ?_, fun p hp => ?_⟩ (fun j => (h.fifo j).sublist (hq.queue j))
      fun e he j a ha => h.waiting e he j a ((hq.queue j).subset ha)
    · exact h.objects.jobs j a ((hq.queue j).subset ha)
    · exact h.objects.taken j a (hq.snapshot j a ha)
    · obtain ⟨P, hP, hl, p, hp, hrest⟩ := h.objects.wal e he
      exact ⟨P, hP, hl, p, List.mem_cons_of_mem _ hp, hrest⟩
    · rcases OrdMap.mem_entries_insert he with rfl | ⟨-, he⟩
      · exact ⟨T, hT, hholds, _, List.mem_cons_self, rfl, rfl⟩
      · obtain ⟨P, hP, hh, p, hp, hrest⟩ := h.objects.snapshots e he
        exact ⟨P, hP, hh, p, List.mem_cons_of_mem _ hp, hrest⟩
    · rcases List.mem_cons.1 hp with rfl | hp
      · exact ⟨T, hT, rfl, hsent, .inr ⟨_, OrdMap.mem_insert_self .., rfl, hreach⟩⟩
      · obtain ⟨P, hP, hPid, hPsent, hcover⟩ := h.objects.puts p hp
        refine ⟨P, hP, hPid, hPsent, hcover.imp_right fun ⟨e, he, hepoch, hr⟩ => ?_⟩
        by_cases hkey : e.1 = s.key
        · exact ⟨(s.key, s.db), OrdMap.mem_insert_self .., hkey ▸ hepoch, hkey ▸ hr⟩
        · exact ⟨e, OrdMap.mem_insert_of_ne hkey he, hepoch, hr⟩
  · exact h.of_sameFiles hfiles (h.objects.grow hq) (h.fifo_quiet hq) (h.waiting_quiet hq)

/-- A node that was not shut down cleanly begins its next epoch, with nothing captured and
    nothing on its way. -/
theorem Inv.start_dirty (i : NodeId) (leftOver : Bool) :
    (w.nodes i).start (w.nodes i).positionFile leftOver =
      { file := (w.nodes i).file, positions := { epoch := (w.nodes i).positions.epoch + 1 },
        positionFile := { epoch := (w.nodes i).positions.epoch + 1 }, leftOver } := by
  obtain ⟨hdirty, hepoch, -⟩ := h.counts i
  rw [ArchivingNode.start, Positions.loadOrInit_of_dirty hdirty, hepoch]

theorem Inv.crash_owner (hten : w.tenures = T :: past) (leftOver : Bool) :
    ({ w.setNode T.node ((w.nodes T.node).start (w.nodes T.node).positionFile leftOver) with
        tenures := T.nextEpoch ((w.nodes T.node).positions.epoch + 1) :: past } :
      ArchiveNet).Inv shard := by
  rw [h.start_dirty]
  have howns := h.owner T (by rw [hten]; rfl)
  obtain ⟨k, rest, hepochs, -⟩ := howns.shipped
  have hpairs := h.epochs T (hten ▸ List.mem_cons_self)
  have hbelow : ∀ y ∈ T.epochs, y.1 < (w.nodes T.node).positions.epoch + 1 := by
    intro y hy
    rw [hepochs] at hpairs hy
    rcases List.mem_cons.1 hy with rfl | hy
    · exact Nat.lt_succ_self _
    · exact ((List.pairwise_cons.1 hpairs).1 y hy).trans (Nat.lt_succ_self _)
  have hline : Line (T.nextEpoch ((w.nodes T.node).positions.epoch + 1) :: past) := by
    refine h.line_head hten rfl (fun x hx => ?_) (List.pairwise_cons.2 ⟨hbelow, hpairs⟩)
      (h.fills T (hten ▸ List.mem_cons_self))
    rcases List.mem_cons.1 hx with rfl | hx
    · exact ⟨_, hepochs ▸ List.mem_cons_self, Nat.le_succ _⟩
    · exact ⟨x, hx, le_refl _⟩
  refine h.setNode (grows_head hten (.nextEpoch T _)) hline (List.nil_sublist _)
    (nofun) ⟨rfl, rfl, Nat.one_pos⟩ (.inl ⟨rfl, rfl⟩)
    fun P hP => ?_
  cases hP
  exact owns_setNode (T := T.nextEpoch _) howns.file
    ⟨T.log.length, T.epochs, rfl, le_refl _, List.drop_length.symm⟩

theorem Inv.restart (hqueue : n.queue = []) (hsnapshot : n.snapshot = none)
    (hcounts : n.Counts shard) (hused : n.Uses shard w.tenures i)
    (howner : ∀ T ∈ w.tenures.head?, T.node = i → n.file = (w.nodes i).file ∧
      n.positions.epoch = (w.nodes i).positions.epoch ∧
      n.positions.nextLsn shard = (w.nodes i).positions.nextLsn shard ∧
      n.capture.committed = (w.nodes i).capture.committed) :
    (w.setNode i n).Inv shard := by
  refine h.setNode (fun P hP => ⟨P, hP, .refl P⟩) h.toLine (hqueue ▸ List.nil_sublist _)
    (hsnapshot ▸ nofun) hcounts hused fun T hT => ?_
  obtain ⟨hfile, hshipped⟩ := h.owner T hT
  by_cases hi : T.node = i
  · obtain ⟨hf, he, hl, hc⟩ := howner T hT hi
    subst hi
    rw [← he, ← hl, ← hc] at hshipped
    exact owns_setNode (hf.trans hfile) hshipped
  · have hother := setNode_of_ne (w := w) n hi
    constructor
    · exact (congrArg ArchivingNode.file hother).trans hfile
    · show ∃ k past, T.epochs = (((w.setNode i n).nodes T.node).positions.epoch, k) :: past ∧ _
      rw [hother]
      exact hshipped

theorem Inv.crash (i : NodeId) (leftOver : Bool) : (w.crash i leftOver).Inv shard := by
  have hstart := h.start_dirty i leftOver
  have hcounts : ((w.nodes i).start (w.nodes i).positionFile leftOver).positions.epoch =
      (w.nodes i).positions.epoch + 1 := by rw [hstart]
  by_cases hown : ∃ T ∈ w.tenures.head?, T.node = i
  · obtain ⟨T, hT, rfl⟩ := hown
    obtain ⟨past, hten⟩ : ∃ past, w.tenures = T :: past := ⟨_, List.eq_cons_of_mem_head? hT⟩
    have hcrash := h.crash_owner hten leftOver
    rw [← hcounts] at hcrash
    unfold ArchiveNet.crash
    simp only [hten, if_true]
    exact hcrash
  · have hsame : w.crash i leftOver =
        w.setNode i ((w.nodes i).start (w.nodes i).positionFile leftOver) := by
      unfold ArchiveNet.crash
      cases hten : w.tenures with
      | nil => simp only [ArchiveNet.setNode, hten]
      | cons T past =>
        have hne : T.node ≠ i := fun heq => hown ⟨T, by rw [hten]; rfl, heq⟩
        simp only [ArchiveNet.setNode, hten, if_neg hne]
    rw [hsame, hstart]
    exact h.restart rfl rfl ⟨rfl, rfl, Nat.one_pos⟩ (.inl ⟨rfl, rfl⟩)
      fun T hT hi => absurd ⟨T, hT, hi⟩ hown

theorem Inv.shutdown {leftOver : Bool} (hok : w.Ascends (.shutdown i leftOver)) :
    (w.shutdown i leftOver).Inv shard := by
  unfold ArchiveNet.shutdown
  split_ifs
  · refine h.restart rfl rfl ⟨rfl, rfl, (h.counts i).pos⟩ ?_ fun T hT hi => ?_
    · exact (h.used i).imp_left fun hfresh => ⟨hfresh.1, rfl⟩
    · exact ⟨rfl, rfl, rfl, (hok T hT hi).symm⟩
  · exact h

theorem Inv.newLog (i : NodeId) :
    (w.setNode i { w.nodes i with leftOver := false }).Inv shard := by
  have hq : Quiet w (w.setNode i { w.nodes i with leftOver := false }) :=
    quiet_setNode (fun P hP => ⟨P, hP, .refl P⟩) (.refl _) fun _ hs => hs
  exact h.of_sameFiles (sameFiles_setNode rfl rfl rfl rfl) (h.objects.grow hq) (h.fifo_quiet hq)
    (h.waiting_quiet hq)

theorem Inv.step {a : ArchiveAct} (hok : w.Ascends a) :
    (ArchiveNet.step shard ret w a).Inv shard := by
  cases a with
  | takeOver i => exact h.takeOver hok
  | commit txn => exact h.commit hok
  | drain => exact h.drain
  | upload i ok => exact h.upload i ok
  | takeSnapshot i => exact h.takeSnapshot hok
  | putSnapshot i ok => exact h.putSnapshot i ok
  | crash i leftOver => exact h.crash i leftOver
  | shutdown i leftOver => exact h.shutdown hok
  | newLog i => exact h.newLog i

end

theorem inv_init (shard : ShardId) : ({} : ArchiveNet).Inv shard where
  objects := ⟨nofun, nofun, nofun, nofun, nofun⟩
  ids _ h := (List.not_mem_nil h).elim
  order := .nil
  epochs _ h := (List.not_mem_nil h).elim
  fills _ h := (List.not_mem_nil h).elim
  counts _ := ⟨rfl, rfl, Nat.one_pos⟩
  used _ := .inl ⟨rfl, rfl⟩
  owner _ h := (Option.not_mem_none _ h).elim
  fifo _ := .nil
  waiting _ h := (List.not_mem_nil h).elim

end Steps

/-! ## Runs -/

/-- What the newest owner that archived anything held at some point, with everything it
    archived. -/
def Newest (w : ArchiveNet) (db : Image) : Prop :=
  ∃ T ∈ w.tenures, (∃ p ∈ w.puts, p.tenure = T.id) ∧ (∀ p ∈ w.puts, p.tenure ≤ T.id) ∧
    ∃ m ≤ T.log.length, (∀ p ∈ w.puts, p.tenure = T.id → p.upTo ≤ m) ∧ db = T.imageAt m

instance (w : ArchiveNet) (db : Image) : Decidable (w.Newest db) :=
  inferInstanceAs (Decidable (∃ T ∈ w.tenures, _ ∧ _ ∧ ∃ m ≤ _, _))

/-- A transaction that writes these pages of a database of two. -/
def writes (pages : List (Nat × Bytes)) : ArchiveAct :=
  .commit ⟨2, 1, pages.map fun p => ⟨p.1, p.2⟩, 0⟩

def created : List (Nat × Bytes) := [(1, [1]), (2, [1])]

def unbounded : Retention CommittedTxn := ⟨fun _ => 0, 0⟩

/-- What the owner commits is shipped and archived. -/
def archived (i : NodeId) (pages : List (Nat × Bytes)) : List ArchiveAct :=
  [writes pages, .drain, .upload i true]

def snapshot (i : NodeId) : List ArchiveAct := [.takeSnapshot i, .putSnapshot i true]

/-- Node 2 has started twice and takes over while an upload of node 1 still waits. -/
def handedOver : List ArchiveAct :=
  [.takeOver 1] ++ archived 1 created ++ snapshot 1 ++ archived 1 [(2, [2])] ++
    [writes [(1, [3])], .drain, .crash 2 false, .takeOver 2] ++ archived 2 [(2, [4])] ++
    snapshot 2 ++ [.upload 1 true] ++ archived 2 [(1, [5])]

/-- Node 1 is in its second epoch and node 2 in its first; both are in their first, and
    node 2's objects replace and precede those of node 1; a node stops with a transaction
    the sink refused, and its position is used again; a snapshot has what the positions
    before it do not; node 1, no longer the owner, starts twice more and takes a snapshot. -/
def overtaken : List (List ArchiveAct) :=
  [[.crash 1 false, .takeOver 1] ++ archived 1 created ++ snapshot 1 ++
     [.takeOver 2] ++ archived 2 [(1, [2])] ++ snapshot 2,
   [.takeOver 1] ++ archived 1 created ++ snapshot 1 ++ archived 1 [(1, [2])] ++
     [.takeOver 2] ++ archived 2 [(1, [3])] ++ snapshot 2,
   [.takeOver 1, writes created, .drain, .upload 1 false] ++ snapshot 1 ++
     archived 1 [(2, [2])] ++ [.shutdown 1 false] ++ archived 1 [(1, [3])],
   [.takeOver 1, writes created, .drain, .upload 1 false] ++ archived 1 [(1, [2])] ++
     [writes [(1, [3])], .drain] ++ snapshot 1,
   [.takeOver 1] ++ archived 1 created ++ snapshot 1 ++ [.crash 2 false, .takeOver 2] ++
     archived 2 [(1, [2])] ++ snapshot 2 ++ [.crash 1 false, .crash 1 false] ++ snapshot 1]

end ArchiveNet

end Shardlite.S3
