/-
  Shardlite.S3.Archive

  The archive of one shard: snapshots and change-log objects under keys made of an epoch
  and an LSN, both padded to twenty digits, so that the order of the keys is that of the
  pairs.  Recovery takes the snapshot with the largest key and replays the change log of
  its epoch over it, or refuses.

  A database image is its pages and its length in bytes; truncating cuts off the pages
  past the length.
-/
import Shardlite.Vfs.Wal
import Shardlite.Replication.Follower

namespace Shardlite.S3

open Vfs (Bytes CommittedTxn)
open Replication (StreamTxn positioned firstGap eq_positioned_of_firstGap)

/-- `{epoch:020}_{lsn:020}`. -/
abbrev Key := Nat ×ₗ Nat

def Key.of (epoch lsn : Nat) : Key := toLex (epoch, lsn)

def Key.epoch (k : Key) : Nat := (ofLex k).1

def Key.lsn (k : Key) : Nat := (ofLex k).2

@[simp] theorem Key.epoch_of (epoch lsn : Nat) : (Key.of epoch lsn).epoch = epoch := rfl

@[simp] theorem Key.lsn_of (epoch lsn : Nat) : (Key.of epoch lsn).lsn = lsn := rfl

theorem Key.le_iff {k k' : Key} :
    k ≤ k' ↔ k.epoch < k'.epoch ∨ k.epoch = k'.epoch ∧ k.lsn ≤ k'.lsn :=
  Prod.Lex.le_iff

/-! ## Images -/

/-- A database: its pages by number, from 1, and its length in bytes. -/
structure Image where
  pages : OrdMap Nat Bytes := .empty
  length : Nat := 0
  deriving DecidableEq

def pagesOf (txn : CommittedTxn) : List (Nat × Bytes) :=
  txn.frames.map fun frame => (frame.pageNo, frame.data)

/-- The pages up to the length. -/
def Image.cut (pages : OrdMap Nat Bytes) (pageSize length : Nat) : OrdMap Nat Bytes :=
  pages.filter fun page _ => 0 < page ∧ page * pageSize ≤ length

/-- What a committed transaction makes of the database. -/
def Image.commit (db : Image) (txn : CommittedTxn) : Image where
  pages := cut (db.pages.insertAll (pagesOf txn)) txn.pageSize (txn.dbSizePages * txn.pageSize)
  length := txn.dbSizePages * txn.pageSize

/-- The database has all its pages after the transaction: those that it adds it
    writes. -/
def Image.Fills (db : Image) (txn : CommittedTxn) : Prop :=
  0 < txn.pageSize ∧ ∀ page < txn.dbSizePages, (db.commit txn).pages.contains (page + 1)

instance (db : Image) (txn : CommittedTxn) : Decidable (db.Fills txn) :=
  inferInstanceAs (Decidable (_ ∧ ∀ page < _, _))

/-- So it has after the last of these transactions. -/
def Image.FilledBy (db : Image) (txns : List CommittedTxn) : Prop :=
  ∀ front last, txns = front ++ [last] → (front.foldl Image.commit db).Fills last

/-- The pages of a change log over a snapshot. -/
structure PageOverlay where
  pages : OrdMap Nat Bytes
  pageSize : Nat
  dbSize : Nat
  deriving DecidableEq

/-- Collapse to the final image: later transactions win for a page they rewrite, and the
    last one's size is the size after replay. -/
def PageOverlay.collapse (txns : List CommittedTxn) (last : CommittedTxn) : PageOverlay where
  pages := OrdMap.empty.insertAll (txns.flatMap pagesOf)
  pageSize := last.pageSize
  dbSize := last.dbSizePages * last.pageSize

/-- Write the pages and cut the file to its new length. -/
def Image.applyOverlay (db : Image) (o : PageOverlay) : Image where
  pages := cut (db.pages.insertAll o.pages.entries) o.pageSize o.dbSize
  length := o.dbSize

/-- A page that is still there has what was written to it last. -/
theorem Image.get?_foldl_commit {db : Image} {txns : List CommittedTxn} {page : Nat} {data : Bytes}
    (h : (txns.foldl Image.commit db).pages.get? page = some data) :
    (db.pages.insertAll (txns.flatMap pagesOf)).get? page = some data := by
  induction txns using List.reverseRecOn generalizing data with
  | nil => exact h
  | append_singleton txns last ih =>
    rw [List.foldl_append] at h
    obtain ⟨h, -⟩ := OrdMap.get?_filter_eq_some_iff.1 h
    rw [List.flatMap_append, OrdMap.insertAll_append, List.flatMap_singleton,
      OrdMap.get?_insertAll]
    rw [OrdMap.get?_insertAll] at h
    rcases Option.or_eq_some_iff.1 h with hnew | ⟨hnone, hold⟩
    · rw [hnew, Option.some_or]
    · rw [hnone, Option.none_or]
      exact ih hold

/-- Splicing the collapsed change log in is committing its transactions in order, if that
    leaves no page out. -/
theorem Image.applyOverlay_collapse {db : Image} {txns : List CommittedTxn} {last : CommittedTxn}
    (hfills : (txns.foldl Image.commit db).Fills last) :
    db.applyOverlay (.collapse (txns ++ [last]) last) = (txns ++ [last]).foldl Image.commit db := by
  have hfold : (txns ++ [last]).foldl Image.commit db = (txns.foldl Image.commit db).commit last := by
    rw [List.foldl_append]
    rfl
  have hpages : (db.applyOverlay (.collapse (txns ++ [last]) last)).pages =
      ((txns ++ [last]).foldl Image.commit db).pages := by
    refine OrdMap.ext_get? fun page => Option.ext fun data => ?_
    rw [show (db.applyOverlay (.collapse (txns ++ [last]) last)).pages =
      cut (db.pages.insertAll (OrdMap.empty.insertAll ((txns ++ [last]).flatMap pagesOf)).entries)
        last.pageSize (last.dbSizePages * last.pageSize) from rfl, OrdMap.insertAll_entries]
    constructor
    · intro h
      obtain ⟨hget, hin⟩ := OrdMap.get?_filter_eq_some_iff.1 h
      obtain ⟨hpos, hle⟩ := of_decide_eq_true hin
      have hlt : page - 1 < last.dbSizePages := by
        have := Nat.le_of_mul_le_mul_right hle hfills.1
        omega
      -- the page is there after the commit, with the same content
      obtain ⟨data', hdata'⟩ := Option.isSome_iff_exists.1 (hfills.2 (page - 1) hlt)
      rw [Nat.sub_add_cancel hpos, ← hfold] at hdata'
      cases (Image.get?_foldl_commit hdata').symm.trans hget
      exact hdata'
    · intro h
      refine OrdMap.get?_filter_eq_some_iff.2 ⟨Image.get?_foldl_commit h, ?_⟩
      rw [hfold] at h
      exact (OrdMap.get?_filter_eq_some_iff.1 h).2
  have hlength : (db.applyOverlay (.collapse (txns ++ [last]) last)).length =
      ((txns ++ [last]).foldl Image.commit db).length := by
    rw [hfold]
    rfl
  cases hover : db.applyOverlay (.collapse (txns ++ [last]) last)
  cases hall : (txns ++ [last]).foldl Image.commit db
  rw [hover, hall] at hpages hlength
  simp only at hpages hlength
  rw [hpages, hlength]

/-! ## Recovery -/

/-- What is stored for the shard. -/
structure Archive where
  snapshots : OrdMap Key Image := .empty
  wal : OrdMap Key (List (StreamTxn CommittedTxn)) := .empty
  deriving DecidableEq

variable {T : Type} {first : Nat} {as : List T}

theorem exists_getElem?_of_mem_positioned {t : StreamTxn T}
    (h : t ∈ positioned first as) : ∃ j, t.lsn = first + j ∧ as[j]? = some t.txn := by
  induction as generalizing first with
  | nil => cases h
  | cons a as ih =>
    rcases List.mem_cons.1 h with rfl | h
    · exact ⟨0, rfl, rfl⟩
    · obtain ⟨j, hlsn, hj⟩ := ih h
      exact ⟨j + 1, by omega, hj⟩

theorem mem_positioned_of_getElem? {j : Nat} {a : T}
    (h : as[j]? = some a) : ⟨first + j, a⟩ ∈ positioned first as := by
  induction as generalizing first j with
  | nil => cases h
  | cons b as ih =>
    cases j with
    | zero =>
      cases h
      exact List.mem_cons_self
    | succ j =>
      have hmem : ⟨first + 1 + j, a⟩ ∈ positioned (first + 1) as := ih h
      rw [Nat.add_right_comm, Nat.add_assoc] at hmem
      exact List.mem_cons_of_mem _ hmem

namespace Archive

variable (a : Archive) (shard : ShardId)

/-- The snapshot with the largest key, whoever took it. -/
def latestSnapshot : Option (Key × Image) := a.snapshots.entries.getLast?

/-- The archived transactions of an epoch after an LSN, in order of their LSN. -/
def changeLog (epoch lsn : Nat) : List (StreamTxn CommittedTxn) :=
  ((a.wal.entries.filter fun e => e.1.epoch = epoch).flatMap fun e =>
    e.2.filter fun t => lsn < t.lsn).insertionSort fun t t' => t.lsn ≤ t'.lsn

/-- The change log after a snapshot.  One that goes on in a later epoch or has a gap is
    refused. -/
def buildOverlay (snapEpoch snapLsn : Nat) : Except Error (Option PageOverlay) :=
  if a.wal.keys.any fun k => snapEpoch < k.epoch then
    .error (.other (s!"shard {shard} change-log continues past the snapshot's epoch {snapEpoch}; " ++
      "the archive spans a WAL reset and needs a fresh snapshot"))
  else
    let txns := a.changeLog snapEpoch snapLsn
    match txns.getLast? with
    | none => .ok none
    | some last =>
      match firstGap (snapLsn + 1) txns with
      | some gap =>
        .error (.other (s!"shard {shard} change-log has a gap: expected lsn {gap.expected}, " ++
          s!"found {gap.got}"))
      | none => .ok (some (.collapse (txns.map (·.txn)) last.txn))

/-- The complete current image, with the snapshot's position and the pages replayed. -/
def recoverBytes : Except Error (Image × Nat × Nat × Nat) :=
  match a.latestSnapshot with
  | none => .error (.other s!"no S3 snapshot archived for shard {shard}")
  | some (key, db) => do
    let overlay ← a.buildOverlay shard key.epoch key.lsn
    match overlay with
    | some o => .ok (db.applyOverlay o, key.epoch, key.lsn, o.pages.size)
    | none => .ok (db, key.epoch, key.lsn, 0)

variable {a shard}
variable {db : Image}

theorem mem_changeLog {epoch lsn : Nat} {t : StreamTxn CommittedTxn} :
    t ∈ a.changeLog epoch lsn ↔
      lsn < t.lsn ∧ ∃ e ∈ a.wal.entries, e.1.epoch = epoch ∧ t ∈ e.2 := by
  rw [changeLog, (List.perm_insertionSort _ _).mem_iff, List.mem_flatMap]
  constructor
  · rintro ⟨e, he, ht⟩
    obtain ⟨he, hepoch⟩ := List.mem_filter.1 he
    obtain ⟨ht, hlsn⟩ := List.mem_filter.1 ht
    exact ⟨of_decide_eq_true hlsn, e, he, of_decide_eq_true hepoch, ht⟩
  · rintro ⟨hlsn, e, he, hepoch, ht⟩
    exact ⟨e, List.mem_filter.2 ⟨he, decide_eq_true hepoch⟩,
      List.mem_filter.2 ⟨ht, decide_eq_true hlsn⟩⟩

theorem latestSnapshot_spec {key : Key} (h : a.latestSnapshot = some (key, db)) :
    (key, db) ∈ a.snapshots.entries ∧ ∀ e ∈ a.snapshots.entries, e.1 ≤ key := by
  obtain ⟨front, heq⟩ := List.getLast?_eq_some_iff.1 h
  have hsorted := a.snapshots.sorted
  rw [heq] at hsorted ⊢
  refine ⟨List.mem_append_right _ List.mem_cons_self, fun e he => ?_⟩
  rcases List.mem_append.1 he with he | he
  · exact ((List.pairwise_append.1 hsorted).2.2 e he _ List.mem_cons_self).le
  · rw [List.mem_singleton.1 he]

/-- What a recovery that is not refused returns: the latest snapshot with the whole
    change log of its epoch after it, which has no gap and nothing of a later epoch, if
    the log leaves no page out. -/
theorem recoverBytes_spec {epoch lsn pages : Nat}
    (h : a.recoverBytes shard = .ok (db, epoch, lsn, pages)) :
    ∃ snap, a.latestSnapshot = some (.of epoch lsn, snap) ∧
      (∀ e ∈ a.wal.entries, e.1.epoch ≤ epoch) ∧
      a.changeLog epoch lsn = positioned (lsn + 1) ((a.changeLog epoch lsn).map (·.txn)) ∧
      (snap.FilledBy ((a.changeLog epoch lsn).map (·.txn)) →
        db = ((a.changeLog epoch lsn).map (·.txn)).foldl Image.commit snap) := by
  unfold recoverBytes at h
  cases hlatest : a.latestSnapshot with
  | none =>
    rw [hlatest] at h
    cases h
  | some e =>
    obtain ⟨key, snap⟩ := e
    rw [hlatest] at h
    simp only at h
    unfold buildOverlay at h
    by_cases hlater : a.wal.keys.any fun k => key.epoch < k.epoch
    · rw [if_pos hlater] at h
      cases h
    rw [if_neg hlater] at h
    have hepochs : ∀ e ∈ a.wal.entries, e.1.epoch ≤ key.epoch := by
      intro e he
      by_contra hlt
      refine hlater (List.any_eq_true.2 ⟨e.1, List.mem_map_of_mem he, ?_⟩)
      exact decide_eq_true (not_le.1 hlt)
    rcases List.eq_nil_or_concat' (a.changeLog key.epoch key.lsn) with hnil | ⟨front, last, hlog⟩
    · simp only [hnil] at h
      cases h
      exact ⟨_, rfl, hepochs, by rw [hnil]; rfl, fun _ => by rw [hnil]; rfl⟩
    · have hgetLast : (a.changeLog key.epoch key.lsn).getLast? = some last := by
        rw [hlog, List.getLast?_concat]
      simp only [hgetLast] at h
      cases hgap : firstGap (key.lsn + 1) (a.changeLog key.epoch key.lsn) with
      | some gap =>
        rw [hgap] at h
        cases h
      | none =>
        rw [hgap] at h
        cases h
        refine ⟨_, rfl, hepochs, eq_positioned_of_firstGap hgap, ?_⟩
        rw [hlog, List.map_append, List.map_singleton]
        exact fun hfilled => Image.applyOverlay_collapse (hfilled _ _ rfl)

end Archive

end Shardlite.S3
