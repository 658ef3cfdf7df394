/-
  Shardlite.S3.Replay

  Replaying an archive against applying its transactions one after the other, byte
  by byte.  The overlay keeps the last content of every page and the last size, so
  a page that a transaction cut off and a later one brought back without writing it
  shows what it held before the cut, where the file that is cut shows zeros.
-/
import Shardlite.S3.Archive
import Shardlite.Lib.Buffer

namespace Shardlite.S3

open Vfs (Bytes CommittedTxn)
open Replication (positioned map_txn_positioned eq_positioned_of_firstGap)
open Buffer

/-! ## The two ways -/

/-- Splice an overlay into a database; `order` is the order in which the map of its
    pages is gone through. -/
def applyOverlay (db : Bytes) (o : PageOverlay) (order : List (Nat × Bytes)) : Bytes :=
  let db := if db.length < o.dbSize then resize db o.dbSize else db
  (order.foldl (fun db e => writeAt db ((e.1 - 1) * o.pageSize) e.2) db).take o.dbSize

/-- Write a transaction's pages, then cut or grow the file. -/
def applyTxn (db : Bytes) (txn : CommittedTxn) : Bytes :=
  resize (txn.frames.foldl (fun db f => writeAt db ((f.pageNo - 1) * txn.pageSize) f.data) db)
    (txn.dbSizePages * txn.pageSize)

/-- The follower's way: one transaction after the other. -/
def applyToDbFile (db : Bytes) (txns : List CommittedTxn) : Bytes := txns.foldl applyTxn db

/-- The transactions of a log: whole pages of one size, numbered from 1. -/
structure Paged (pageSize : Nat) (txn : CommittedTxn) : Prop where
  size : txn.pageSize = pageSize
  pages : ∀ e ∈ pagesOf txn, 1 ≤ e.1 ∧ e.2.length = pageSize

instance (pageSize : Nat) (txn : CommittedTxn) : Decidable (Paged pageSize txn) :=
  decidable_of_iff (txn.pageSize = pageSize ∧ ∀ e ∈ pagesOf txn, 1 ≤ e.1 ∧ e.2.length = pageSize)
    ⟨fun h => ⟨h.1, h.2⟩, fun h => ⟨h.size, h.pages⟩⟩

/-- The page was cut off by a transaction and not written since. -/
def gone (txns : List CommittedTxn) (page : Nat) : Bool :=
  txns.foldl (fun gone t =>
    decide (t.dbSizePages < page) || gone && !(t.frames.any (·.pageNo = page))) false

/-- What a page was last given, by a transaction or in the snapshot. -/
def lastContent (pageSize : Nat) (db : Bytes) (txns : List CommittedTxn) (i : Nat) : UInt8 :=
  ((OrdMap.empty.insertAll (txns.flatMap pagesOf)).get? (i / pageSize + 1)).elim (peek db i)
    (peek · (i % pageSize))

/-- No page of the final database that was cut off and not written since had held
    anything but zeros. -/
def NothingResurfaces (pageSize : Nat) (db : Bytes) (txns : List CommittedTxn) : Prop :=
  ∀ i < (txns.getLast?.elim 0 (·.dbSizePages)) * pageSize,
    gone txns (i / pageSize + 1) = true → lastContent pageSize db txns i = 0

instance (pageSize : Nat) (db : Bytes) (txns : List CommittedTxn) :
    Decidable (NothingResurfaces pageSize db txns) :=
  inferInstanceAs (Decidable (∀ _ < _, _))

/-! ## Byte by byte -/

section Bytes

variable {pageSize : Nat} {db : Bytes} {es order : List (Nat × Bytes)} {o : PageOverlay}
  {txn : CommittedTxn} {txns : List CommittedTxn}
variable {last : CommittedTxn}

theorem get?_insertAll_cons (e : Nat × Bytes) (es : List (Nat × Bytes)) (k : Nat) :
    (OrdMap.empty.insertAll (e :: es)).get? k =
      ((OrdMap.empty.insertAll es).get? k).or (if k = e.1 then some e.2 else none) := by
  have hcons : OrdMap.empty.insertAll (e :: es) = (OrdMap.empty.insert e.1 e.2).insertAll es := rfl
  rw [hcons, OrdMap.get?_insertAll, OrdMap.get?_insert, OrdMap.get?_empty]

theorem mem_of_get?_insertAll {k : Nat} {v : Bytes}
    (h : (OrdMap.empty.insertAll es).get? k = some v) : (k, v) ∈ es := by
  induction es with
  | nil => cases h
  | cons e es ih =>
    rw [get?_insertAll_cons, Option.or_eq_some_iff] at h
    rcases h with h | ⟨-, h⟩
    · exact List.mem_cons_of_mem _ (ih h)
    · split_ifs at h with hk
      cases h
      rw [hk]
      exact List.mem_cons_self

theorem peek_writePage {page : Nat} {data : Bytes} (hpos : 0 < pageSize) (hpage : 1 ≤ page)
    (hdata : data.length = pageSize) (i : Nat) :
    peek (writeAt db ((page - 1) * pageSize) data) i =
      if i / pageSize + 1 = page then peek data (i % pageSize) else peek db i := by
  have hwithin : ((page - 1) * pageSize ≤ i ∧ i < (page - 1) * pageSize + pageSize) ↔
      i / pageSize + 1 = page := by
    rw [← Nat.le_div_iff_mul_le hpos, ← Nat.succ_mul, ← Nat.div_lt_iff_lt_mul hpos]
    omega
  rw [peek_writeAt, hdata]
  simp only [hwithin]
  split_ifs with hin
  · have hmod := Nat.div_add_mod i pageSize
    rw [Nat.mul_comm, show i / pageSize = page - 1 by omega] at hmod
    congr 1
    omega
  · rfl

theorem peek_foldl_writePage (hpos : 0 < pageSize)
    (hes : ∀ e ∈ es, 1 ≤ e.1 ∧ e.2.length = pageSize) (i : Nat) :
    peek (es.foldl (fun db e => writeAt db ((e.1 - 1) * pageSize) e.2) db) i =
      ((OrdMap.empty.insertAll es).get? (i / pageSize + 1)).elim (peek db i)
        (peek · (i % pageSize)) := by
  induction es generalizing db with
  | nil => rfl
  | cons e es ih =>
    obtain ⟨hpage, hdata⟩ := hes e List.mem_cons_self
    rw [List.foldl_cons, ih fun e' he' => hes e' (List.mem_cons_of_mem _ he'),
      get?_insertAll_cons, peek_writePage hpos hpage hdata]
    cases (OrdMap.empty.insertAll es).get? (i / pageSize + 1) with
    | some d => rfl
    | none => split_ifs <;> rfl

/-- The order in which the pages are gone through does not matter. -/
theorem insertAll_of_perm {m : OrdMap Nat Bytes} (h : order.Perm m.entries) :
    OrdMap.empty.insertAll order = m := by
  have hcomm : ∀ x ∈ order, ∀ y ∈ order, ∀ z : OrdMap Nat Bytes,
      (z.insert x.1 x.2).insert y.1 y.2 = (z.insert y.1 y.2).insert x.1 x.2 := by
    intro x hx y hy z
    by_cases hk : x.1 = y.1
    · have hsame : x.2 = y.2 := by
        have hx' := OrdMap.get?_eq_some_iff.2 (h.mem_iff.1 hx)
        rw [hk, OrdMap.get?_eq_some_iff.2 (h.mem_iff.1 hy)] at hx'
        exact (Option.some.inj hx').symm
      rw [hk, hsame]
    · refine OrdMap.ext_get? fun k => ?_
      simp only [OrdMap.get?_insert]
      split_ifs with hy hx
      · exact absurd (hx.symm.trans hy) hk
      all_goals rfl
  unfold OrdMap.insertAll
  rw [h.foldl_eq' hcomm]
  refine OrdMap.ext_get? fun k => ?_
  exact (OrdMap.get?_insertAll_of_sorted _ m.sorted k).trans (Option.or_none ..)

theorem peek_applyOverlay (hpos : 0 < o.pageSize)
    (hpages : ∀ e ∈ o.pages.entries, 1 ≤ e.1 ∧ e.2.length = o.pageSize)
    (horder : order.Perm o.pages.entries) {i : Nat} (hi : i < o.dbSize) :
    peek (applyOverlay db o order) i =
      (o.pages.get? (i / o.pageSize + 1)).elim (peek db i) (peek · (i % o.pageSize)) := by
  unfold applyOverlay
  rw [peek_take, if_pos hi, peek_foldl_writePage hpos fun e he => hpages e (horder.mem_iff.1 he),
    insertAll_of_perm horder]
  split_ifs
  · rw [peek_resize, if_pos hi]
  · rfl

theorem length_applyOverlay : (applyOverlay db o order).length = o.dbSize := by
  have hgrows : ∀ (es : List (Nat × Bytes)) (m : Bytes), o.dbSize ≤ m.length →
      o.dbSize ≤ (es.foldl (fun db e => writeAt db ((e.1 - 1) * o.pageSize) e.2) m).length := by
    intro es
    induction es with
    | nil => exact fun _ hm => hm
    | cons e es ih => exact fun m hm => ih _ (hm.trans length_le_writeAt)
  unfold applyOverlay
  rw [List.length_take]
  refine min_eq_left (hgrows _ _ ?_)
  split_ifs with hshort
  · exact length_resize.ge
  · exact not_lt.1 hshort

/-! ## One transaction after the other -/

theorem any_frames_iff (txn : CommittedTxn) (page : Nat) :
    txn.frames.any (·.pageNo = page) = ((OrdMap.empty.insertAll (pagesOf txn)).get? page).isSome := by
  unfold pagesOf
  induction txn.frames with
  | nil => rfl
  | cons f fs ih =>
    rw [List.any_cons, List.map_cons, get?_insertAll_cons, ih, Bool.or_comm, Option.isSome_or]
    congr 1
    by_cases hk : f.pageNo = page
    · simp [hk]
    · simp [hk, Ne.symm hk]

/-- **Sequential apply.**  A byte is the last one its page was given, or zero if the
    page was cut off and not written since. -/
theorem peek_applyToDbFile (hpos : 0 < pageSize) (hpaged : ∀ t ∈ txns, Paged pageSize t) (i : Nat) :
    peek (applyToDbFile db txns) i =
      if gone txns (i / pageSize + 1) then 0 else lastContent pageSize db txns i := by
  -- from the end: the last transaction decides first
  induction txns using List.reverseRecOn with
  | nil => rfl
  | append_singleton txns t ih =>
    have ht := hpaged t (List.mem_append_right _ List.mem_cons_self)
    have hwithin : i < t.dbSizePages * pageSize ↔ ¬ t.dbSizePages < i / pageSize + 1 := by
      rw [← Nat.div_lt_iff_lt_mul hpos]
      omega
    have hframes : t.frames.foldl (fun db f => writeAt db ((f.pageNo - 1) * pageSize) f.data)
        (applyToDbFile db txns) = (pagesOf t).foldl
          (fun db e => writeAt db ((e.1 - 1) * pageSize) e.2) (applyToDbFile db txns) := by
      rw [pagesOf, List.foldl_map]
    have hstep : applyToDbFile db (txns ++ [t]) = applyTxn (applyToDbFile db txns) t :=
      List.foldl_concat ..
    have hgone : gone (txns ++ [t]) (i / pageSize + 1) =
        (decide (t.dbSizePages < i / pageSize + 1) || gone txns (i / pageSize + 1) &&
          !(t.frames.any (·.pageNo = i / pageSize + 1))) := List.foldl_concat ..
    rw [hstep, applyTxn, ht.size, hframes, peek_resize, peek_foldl_writePage hpos ht.pages,
      ih fun t' ht' => hpaged t' (List.mem_append_left _ ht'), hgone, any_frames_iff]
    simp only [hwithin, lastContent, List.flatMap_append, List.flatMap_singleton,
      OrdMap.insertAll_append, OrdMap.get?_insertAll (OrdMap.insertAll _ _)]
    by_cases hcut : t.dbSizePages < i / pageSize + 1
    · simp only [hcut, not_true, if_false, decide_true, Bool.true_or, if_true]
      rfl
    · simp only [hcut, not_false_eq_true, if_true, decide_false, Bool.false_or]
      cases (OrdMap.empty.insertAll (pagesOf t)).get? (i / pageSize + 1) with
      | some d => simp
      | none => simp

theorem length_applyToDbFile :
    (applyToDbFile db (txns ++ [last])).length = last.dbSizePages * last.pageSize := by
  have hstep : applyToDbFile db (txns ++ [last]) = applyTxn (applyToDbFile db txns) last :=
    List.foldl_concat ..
  rw [hstep, applyTxn, length_resize]

/-- **Splicing the collapsed log in.**  It gives what the transactions give one after
    the other, exactly if nothing comes back that had been cut off. -/
theorem applyOverlay_collapse_iff (hpos : 0 < pageSize)
    (hpaged : ∀ t ∈ txns ++ [last], Paged pageSize t)
    (horder : order.Perm (PageOverlay.collapse (txns ++ [last]) last).pages.entries) :
    applyOverlay db (.collapse (txns ++ [last]) last) order = applyToDbFile db (txns ++ [last]) ↔
      NothingResurfaces pageSize db (txns ++ [last]) := by
  set o := PageOverlay.collapse (txns ++ [last]) last with ho
  have hsize : o.pageSize = pageSize :=
    (hpaged last (List.mem_append_right _ List.mem_cons_self)).size
  have hlen : o.dbSize = last.dbSizePages * pageSize := congrArg (last.dbSizePages * ·) hsize
  have hpages : ∀ e ∈ o.pages.entries, 1 ≤ e.1 ∧ e.2.length = o.pageSize := by
    intro e he
    obtain ⟨t, ht, hpage⟩ :=
      List.mem_flatMap.1 (mem_of_get?_insertAll (OrdMap.get?_eq_some_iff.2 he))
    rw [hsize]
    exact (hpaged t ht).pages e hpage
  have hbyte : ∀ i < o.dbSize, (peek (applyOverlay db o order) i =
      peek (applyToDbFile db (txns ++ [last])) i ↔
        (gone (txns ++ [last]) (i / pageSize + 1) = true →
          lastContent pageSize db (txns ++ [last]) i = 0)) := by
    intro i hi
    have hover : peek (applyOverlay db o order) i = _ :=
      peek_applyOverlay (hsize.symm ▸ hpos) hpages horder hi
    rw [hsize] at hover
    rw [peek_applyToDbFile hpos hpaged, hover]
    show lastContent pageSize db (txns ++ [last]) i = _ ↔ _
    split_ifs with hgone
    · exact ⟨fun h _ => h, fun h => h hgone⟩
    · exact iff_of_true rfl (absurd · hgone)
  have hlengths : (applyOverlay db o order).length =
      (applyToDbFile db (txns ++ [last])).length := by
    rw [length_applyOverlay, length_applyToDbFile]
    rfl
  unfold NothingResurfaces
  rw [List.getLast?_concat]
  show _ ↔ ∀ i < last.dbSizePages * pageSize, _
  rw [← hlen]
  constructor
  · intro heq i hi
    exact (hbyte i hi).1 (by rw [heq])
  · intro h
    refine ext_peek hlengths fun i hi => ?_
    rw [length_applyOverlay] at hi
    exact (hbyte i hi).2 (h i hi)

end Bytes

/-! ## From the archive -/

namespace Archive

/-- A transaction of the epoch is in the archive under that LSN. -/
def Archived (a : Archive) (epoch lsn : Nat) : Prop :=
  ∃ e ∈ a.wal.entries, e.1.epoch = epoch ∧ ∃ t ∈ e.2, t.lsn = lsn

variable {a : Archive} {shard : ShardId} {epoch lsn : Nat}

theorem buildOverlay_positioned {txns : List CommittedTxn}
    (hepochs : ∀ e ∈ a.wal.entries, e.1.epoch ≤ epoch)
    (hlog : a.changeLog epoch lsn = positioned (lsn + 1) txns) :
    a.buildOverlay shard epoch lsn = .ok (txns.getLast?.map (.collapse txns)) := by
  have hcurrent : ¬ a.wal.keys.any fun k => epoch < k.epoch := by
    rw [List.any_eq_true]
    rintro ⟨k, hk, hlater⟩
    obtain ⟨e, he, rfl⟩ := List.mem_map.1 hk
    exact absurd (of_decide_eq_true hlater) (not_lt.2 (hepochs e he))
  have hlast : (a.changeLog epoch lsn).getLast?.map (·.txn) = txns.getLast? := by
    rw [← List.getLast?_map, hlog, map_txn_positioned]
  unfold buildOverlay
  dsimp only
  rw [if_neg hcurrent, ← hlast]
  cases (a.changeLog epoch lsn).getLast? with
  | none => rfl
  | some last =>
    simp only [hlog, Replication.Copy.firstGap_positioned, map_txn_positioned]
    rfl

/-- **A gap is refused.** -/
theorem buildOverlay_missing {l m : Nat} (hlast : a.Archived epoch l) (hafter : lsn < m)
    (hbefore : m < l) (hmissing : ¬ a.Archived epoch m) :
    ∃ e, a.buildOverlay shard epoch lsn = .error e := by
  obtain ⟨e, he, hepoch, t, ht, rfl⟩ := hlast
  have hmem : t ∈ a.changeLog epoch lsn :=
    mem_changeLog.2 ⟨by omega, e, he, hepoch, ht⟩
  unfold buildOverlay
  split_ifs
  · exact ⟨_, rfl⟩
  dsimp only
  split
  · next hnone =>
    rw [List.getLast?_eq_none_iff.1 hnone] at hmem
    cases hmem
  · split
    · exact ⟨_, rfl⟩
    · next hgap =>
      -- contiguous from the snapshot: it holds the missing one, too
      have hpos := eq_positioned_of_firstGap hgap
      rw [hpos] at hmem
      obtain ⟨j, hj, hget⟩ := exists_getElem?_of_mem_positioned hmem
      have hlt : m - (lsn + 1) < ((a.changeLog epoch lsn).map (·.txn)).length := by
        have := (List.getElem?_eq_some_iff.1 hget).1
        omega
      have hm : _ ∈ positioned (lsn + 1) ((a.changeLog epoch lsn).map (·.txn)) :=
        mem_positioned_of_getElem? (List.getElem?_eq_getElem hlt)
      rw [← hpos] at hm
      obtain ⟨-, e', he', hepoch', ht'⟩ := mem_changeLog.1 hm
      exact absurd ⟨e', he', hepoch', _, ht', Nat.add_sub_of_le hafter⟩ hmissing

/-- **Replay and sequential apply.**  With the whole change log after a snapshot in the
    archive, the overlay is built, and splicing it into any image gives the bytes of
    the transactions applied one after the other exactly if nothing that was cut off
    comes back; with a transaction missing before an archived one it is refused. -/
theorem replay_eq_applyToDbFile_iff {pageSize : Nat} {txns : List CommittedTxn} (hpos : 0 < pageSize)
    (hpaged : ∀ t ∈ txns, Paged pageSize t) :
    (∀ (a : Archive) shard epoch lsn, (∀ e ∈ a.wal.entries, e.1.epoch ≤ epoch) →
      a.changeLog epoch lsn = positioned (lsn + 1) txns →
      ∃ overlay, a.buildOverlay shard epoch lsn = .ok overlay ∧
        ∀ (db : Bytes) (order : List (Nat × Bytes)),
          (∀ o ∈ overlay, order.Perm o.pages.entries) →
          (overlay.elim db (applyOverlay db · order) = applyToDbFile db txns ↔
            NothingResurfaces pageSize db txns)) ∧
    ∀ (a : Archive) shard epoch lsn l m, a.Archived epoch l → lsn < m → m < l →
      ¬ a.Archived epoch m → ∃ e, a.buildOverlay shard epoch lsn = .error e := by
  refine ⟨fun a shard epoch lsn hepochs hlog => ?_, fun _ _ _ _ _ _ hlast hafter hbefore hm =>
    buildOverlay_missing hlast hafter hbefore hm⟩
  refine ⟨_, buildOverlay_positioned hepochs hlog, fun db order horder => ?_⟩
  rcases List.eq_nil_or_concat' txns with rfl | ⟨front, last, rfl⟩
  · refine iff_of_true rfl fun i hi => ?_
    simp at hi
  · rw [List.getLast?_concat] at horder ⊢
    exact applyOverlay_collapse_iff hpos hpaged (horder _ rfl)

/-- The database is cut to its first page and grows again, with that page alone
    written each time. -/
def cutAndGrown : List CommittedTxn :=
  [⟨1, 2, [⟨1, [3, 3]⟩], 0⟩, ⟨2, 2, [⟨1, [4, 4]⟩], 0⟩]

/-- It grows again with the second page written. -/
def cutAndRewritten : List CommittedTxn :=
  [⟨1, 2, [⟨1, [3, 3]⟩], 0⟩, ⟨2, 2, [⟨2, [5, 5]⟩], 0⟩]

def archiveOf (txns : List CommittedTxn) : Archive where
  wal := OrdMap.empty.insert (.of 1 1) (positioned 1 txns)

theorem cutAndRewritten_replayed :
    NothingResurfaces 2 [1, 1, 2, 2] cutAndRewritten ∧
      ∃ overlay, (archiveOf cutAndRewritten).buildOverlay 0 1 0 = .ok overlay ∧
        ∀ (db : Bytes) (order : List (Nat × Bytes)), (∀ o ∈ overlay, order.Perm o.pages.entries) →
          (overlay.elim db (applyOverlay db · order) = applyToDbFile db cutAndRewritten ↔
            NothingResurfaces 2 db cutAndRewritten) :=
  ⟨by decide,
    (replay_eq_applyToDbFile_iff (by decide) (by decide)).1 _ 0 1 0 (by decide) (by decide)⟩

/-- The page that was cut off comes back with what the snapshot had in it. -/
theorem cutAndGrown_resurfaces :
    ((archiveOf cutAndGrown).buildOverlay 0 1 0).toOption.join.map
        (fun o => applyOverlay [1, 1, 2, 2] o o.pages.entries) = some [4, 4, 2, 2] ∧
      applyToDbFile [1, 1, 2, 2] cutAndGrown = [4, 4, 0, 0] ∧
      (∀ t ∈ cutAndGrown, Paged 2 t) ∧
      (archiveOf cutAndGrown).changeLog 1 0 = positioned 1 cutAndGrown := by
  decide

end Archive

end Shardlite.S3
