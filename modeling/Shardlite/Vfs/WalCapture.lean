/-
  Shardlite.Vfs.WalCapture

  The capture follows the log.  First, feeding a write to the capture is feeding
  its pieces one by one; then one piece keeps the slots of the capture and the
  frames of the log in step, and a commit takes the same frames out of both.

  The two part when a header begins a commit frame on top of a leftover frame of
  the same page: the capture takes it for a restamped header and commits the page
  of the transaction that was rolled back.
-/
import Shardlite.Vfs.WalLog

namespace Shardlite.Vfs

open Function
open FrameHeader

/-! ## Offsets -/

variable {pageSize : Nat}

theorem frameOffset_succ (pageSize i : Nat) :
    frameOffset pageSize (i + 1) = frameOffset pageSize i + frameSize pageSize := by
  unfold frameOffset
  rw [Nat.succ_mul, Nat.add_assoc]

theorem frameSize_pos (pageSize : Nat) : 0 < frameSize pageSize :=
  Nat.lt_of_lt_of_le (by decide : 0 < frameHeaderSize) (Nat.le_add_right _ _)

theorem frameOffset_strictMono (pageSize : Nat) : StrictMono (frameOffset pageSize) := by
  refine strictMono_nat_of_lt_succ fun i => ?_
  rw [frameOffset_succ]
  exact Nat.lt_add_of_pos_right (frameSize_pos pageSize)

theorem frameOffset_inj {i j : Nat} :
    frameOffset pageSize i = frameOffset pageSize j ↔ i = j :=
  (frameOffset_strictMono pageSize).injective.eq_iff

theorem walHeaderSize_le_frameOffset (pageSize i : Nat) :
    walHeaderSize ≤ frameOffset pageSize i := Nat.le_add_right _ _

theorem frameOffset_mod (pageSize i : Nat) {k : Nat} (hk : k < frameSize pageSize) :
    (frameOffset pageSize i + k - walHeaderSize) % frameSize pageSize = k := by
  have hrel : frameOffset pageSize i + k - walHeaderSize = i * frameSize pageSize + k := by
    unfold frameOffset
    omega
  rw [hrel, Nat.add_comm, Nat.add_mul_mod_self_right, Nat.mod_eq_of_lt hk]

theorem frameOffset_mod_zero (pageSize i : Nat) :
    (frameOffset pageSize i - walHeaderSize) % frameSize pageSize = 0 := by
  rw [← Nat.add_zero (frameOffset pageSize i)]
  exact frameOffset_mod pageSize i (frameSize_pos pageSize)

/-! ## A write is its pieces -/

/-- The offset-keyed action of one piece on the capture. -/
def WalCapture.place (pageSize : Nat) (st : WalCapture) : Piece → WalCapture
  | .page i data => st.placePage (frameOffset pageSize i) data
  | .frame i hdr data =>
    st.placeFrame (frameOffset pageSize i) (parse hdr) (some data)
  | .header i hdr => st.placeFrame (frameOffset pageSize i) (parse hdr) none

/-- The lengths the format gives the parts of a frame. -/
def Piece.Sized (pageSize : Nat) : Piece → Prop
  | .page _ data => data.length = pageSize
  | .frame _ hdr data => hdr.length = frameHeaderSize ∧ data.length = pageSize
  | .header _ hdr => hdr.length = frameHeaderSize

variable {hdr data : Bytes} {h : WalHeader} {x : WalWrite}

theorem be32_append {a : Bytes} (b : Bytes) {pos : Nat} (h : pos + 4 ≤ a.length) :
    be32 (a ++ b) pos = be32 a pos := by
  have hget : ∀ k, k < a.length → (a ++ b).getD k 0 = a.getD k 0 := by
    intro k hk
    rw [List.getD_eq_getElem?_getD, List.getD_eq_getElem?_getD, List.getElem?_append_left hk]
  unfold be32
  rw [hget pos (by omega), hget (pos + 1) (by omega), hget (pos + 2) (by omega),
    hget (pos + 3) (by omega)]

theorem parse_append (b : Bytes) (h : hdr.length = frameHeaderSize) :
    parse (hdr ++ b) = parse hdr := by
  have hlen : hdr.length = 24 := h
  unfold parse
  rw [be32_append b (by omega), be32_append b (by omega)]

theorem WalHeader.parse_append (b : Bytes) (h : hdr.length = walHeaderSize) :
    WalHeader.parse (hdr ++ b) = WalHeader.parse hdr := by
  have hlen : hdr.length = 32 := h
  have hsalt : ((hdr ++ b).drop 16).take 8 = (hdr.drop 16).take 8 := by
    rw [List.drop_append_of_le_length (by omega),
      List.take_append_of_le_length (by rw [List.length_drop]; omega)]
  have hlong : ¬ (hdr ++ b).length < walHeaderSize := by
    rw [List.length_append, h]
    exact Nat.not_lt.2 (Nat.le_add_right _ _)
  have hfield : ∀ pos, pos + 4 ≤ 32 → be32 (hdr ++ b) pos = be32 hdr pos :=
    fun pos hp => be32_append b (hlen ▸ hp)
  simp only [WalHeader.parse, if_neg hlong, if_neg (h ▸ lt_irrefl _ : ¬ hdr.length < walHeaderSize),
    hfield 0 (by decide), hfield 8 (by decide), hfield 12 (by decide), hsalt]

theorem WalHeader.pageSize_pos {b : Bytes} (hp : WalHeader.parse b = some h) :
    0 < h.pageSize := by
  unfold WalHeader.parse at hp
  dsimp only at hp
  generalize (if be32 b 8 = 1 then 65536 else be32 b 8) = pageSize at hp
  split_ifs at hp with _ _ hsize
  rw [← Option.some.inj hp]
  exact Nat.lt_of_lt_of_le (by decide) hsize.2.1

namespace WalCapture

/-- **The frame loop.**  Whole frames followed by at most one header are placed one
    after the other. -/
theorem consumeFrames_frameBytes (hpos : 0 < pageSize) (trail : Option Bytes) :
    ∀ (frames : List (Bytes × Bytes)) (fuel i : Nat) (st : WalCapture),
      (∀ p ∈ framePieces trail i frames, p.Sized pageSize) →
      (frameBytes trail frames).length ≤ fuel →
      consumeFrames pageSize fuel st (frameOffset pageSize i) (frameBytes trail frames) =
        Machine.run (place pageSize) st (framePieces trail i frames) := by
  have h24 : frameHeaderSize = 24 := rfl
  intro frames
  induction frames with
  | nil =>
    intro fuel i st hsized hfuel
    cases trail with
    | none => cases fuel <;> rfl
    | some hdr =>
      have hlen : hdr.length = frameHeaderSize := hsized (.header i hdr) List.mem_cons_self
      have hfuel : hdr.length ≤ fuel := hfuel
      obtain ⟨fuel, rfl⟩ : ∃ n, fuel = n + 1 := ⟨fuel - 1, by omega⟩
      show consumeFrames pageSize (fuel + 1) st (frameOffset pageSize i) hdr = _
      rw [consumeFrames, if_neg (by rw [hlen]; exact lt_irrefl _)]
      rw [if_neg (by rw [List.length_drop, hlen, Nat.sub_self]; omega)]
      rfl
  | cons f frames ih =>
    intro fuel i st hsized hfuel
    obtain ⟨hdr, data⟩ := f
    obtain ⟨hhdr, hdata⟩ : hdr.length = frameHeaderSize ∧ data.length = pageSize :=
      hsized (.frame i hdr data) List.mem_cons_self
    have hfuel : (hdr ++ (data ++ frameBytes trail frames)).length ≤ fuel := hfuel
    rw [List.length_append, List.length_append] at hfuel
    obtain ⟨fuel, rfl⟩ : ∃ n, fuel = n + 1 := ⟨fuel - 1, by omega⟩
    have hdrop : (hdr ++ (data ++ frameBytes trail frames)).drop frameHeaderSize =
        data ++ frameBytes trail frames := by
      rw [← hhdr, List.drop_left]
    have htake : (data ++ frameBytes trail frames).take pageSize = data := by
      rw [← hdata, List.take_left]
    have hnext : (data ++ frameBytes trail frames).drop pageSize = frameBytes trail frames := by
      rw [← hdata, List.drop_left]
    rw [frameBytes, consumeFrames, if_neg (by rw [List.length_append, hhdr]; omega)]
    rw [hdrop, if_pos (by rw [List.length_append, hdata]; omega), parse_append _ hhdr,
      htake, hnext, ← frameOffset_succ,
      ih fuel (i + 1) _ (fun p hp => hsized p (List.mem_cons_of_mem _ hp)) (by omega)]
    rfl

theorem consumeAligned_frameBytes (hpos : 0 < pageSize) (trail : Option Bytes)
    (frames : List (Bytes × Bytes)) (i : Nat) (st : WalCapture)
    (hsized : ∀ p ∈ framePieces trail i frames, p.Sized pageSize) :
    st.consumeAligned pageSize (frameOffset pageSize i) (frameBytes trail frames) =
      Machine.run (place pageSize) st (framePieces trail i frames) := by
  rw [consumeAligned, if_neg (not_not.2 (frameOffset_mod_zero pageSize i))]
  exact consumeFrames_frameBytes hpos trail frames _ i st hsized (le_refl _)

section Consume

variable {st : WalCapture} {h : WalHeader}

theorem consume_aligned (hhdr : st.header = some h) (i : Nat) (buf : Bytes) :
    st.consume (frameOffset h.pageSize i) buf =
      st.consumeAligned h.pageSize (frameOffset h.pageSize i) buf := by
  have hrel := frameOffset_mod_zero h.pageSize i
  have hfar := walHeaderSize_le_frameOffset h.pageSize i
  unfold consume
  rw [hhdr]
  dsimp only
  rw [if_neg (Nat.not_lt.2 hfar), if_neg fun hc => absurd (hrel.symm.trans hc.1) (by decide)]

theorem consumeAligned_nil (pageSize offset : Nat) : st.consumeAligned pageSize offset [] = st := by
  unfold consumeAligned
  split <;> rfl

theorem consume_page (hhdr : st.header = some h) (hpos : 0 < h.pageSize) (i : Nat)
    (hdata : data.length = h.pageSize) (rest : Bytes) :
    st.consume (frameOffset h.pageSize i + frameHeaderSize) (data ++ rest) =
      (st.placePage (frameOffset h.pageSize i) data).consumeAligned h.pageSize
        (frameOffset h.pageSize (i + 1)) rest := by
  have hrel : (frameOffset h.pageSize i + frameHeaderSize - walHeaderSize) %
      frameSize h.pageSize = frameHeaderSize :=
    frameOffset_mod h.pageSize i (Nat.lt_add_of_pos_right hpos)
  have hfar := walHeaderSize_le_frameOffset h.pageSize i
  have hnext : frameOffset h.pageSize i + frameHeaderSize + h.pageSize =
      frameOffset h.pageSize (i + 1) := by
    rw [frameOffset_succ, frameSize, Nat.add_assoc]
  have hfits : h.pageSize ≤ (data ++ rest).length := by
    rw [List.length_append, hdata]
    exact Nat.le_add_right _ _
  unfold consume
  rw [hhdr]
  dsimp only
  rw [if_neg (by omega), if_pos ⟨hrel, hfits⟩, hnext, Nat.add_sub_cancel, ← hdata, List.take_left,
    List.drop_left]
  split_ifs with hnil
  · rw [hnil, consumeAligned_nil]
  · rfl

/-- **A write is its pieces.** -/
theorem consume_write (hhdr : st.header = some h) (hpos : 0 < h.pageSize) {i : Nat}
    (hsized : ∀ p ∈ x.pieces i, p.Sized h.pageSize) :
    st.consume (x.offset h.pageSize i) x.bytes =
      Machine.run (place h.pageSize) st (x.pieces i) := by
  obtain ⟨lead, frames, trail⟩ := x
  cases lead with
  | none =>
    show st.consume (frameOffset h.pageSize i) (frameBytes trail frames) = _
    rw [consume_aligned hhdr]
    exact consumeAligned_frameBytes hpos trail frames i st hsized
  | some data =>
    have hdata : data.length = h.pageSize := hsized (.page i data) List.mem_cons_self
    show st.consume (frameOffset h.pageSize i + frameHeaderSize)
      (data ++ frameBytes trail frames) = _
    rw [consume_page hhdr hpos i hdata, consumeAligned_frameBytes hpos trail frames (i + 1) _
      fun p hp => hsized p (List.mem_cons_of_mem _ hp)]
    rfl

end Consume

end WalCapture

/-! ## The slots of the capture and the frames of the log -/

/-- What the capture should hold of frame `i`. -/
def WalLog.image (log : WalLog) (i : Nat) : Slot where
  pageNo := (log.frameHeader i).pageNo
  dbSizeAfterCommit := (log.frameHeader i).dbSizeAfterCommit
  data := if log.held i then some (log.slot i).2 else none

/-- The slots past the last commit are images of the log's frames, leftovers of
    abandoned transactions included; a slot before it carries no page. -/
structure Matches (pageSize : Nat) (log : WalLog) (slots : OrdMap Nat Slot) : Prop where
  aligned : ∀ {k s}, slots.get? k = some s → ∃ i, k = frameOffset pageSize i
  past : ∀ {i s}, i < log.base → slots.get? (frameOffset pageSize i) = some s → s.data = none
  image : ∀ {i s}, log.base ≤ i → slots.get? (frameOffset pageSize i) = some s → s = log.image i
  held : ∀ {i}, log.base ≤ i → log.held i = true →
    slots.get? (frameOffset pageSize i) = some (log.image i)

namespace WalLog

variable (log : WalLog) (i j : Nat) (cell : Bytes × Bytes) (held : Bool)

theorem image_write_of_ne (h : j ≠ i) : (log.write i cell held).image j = log.image j := by
  simp only [image, frameHeader, write, update_of_ne h]

theorem image_write_self :
    (log.write i cell held).image i =
      ⟨(parse cell.1).pageNo, (parse cell.1).dbSizeAfterCommit,
        if held then some cell.2 else none⟩ := by
  simp only [image, frameHeader, write, update_self]

theorem frameHeader_write_self :
    (log.write i cell held).frameHeader i = parse cell.1 := by
  simp only [frameHeader, write, update_self]

theorem held_write : (log.write i cell held).held j = if j = i then held else log.held j := by
  by_cases h : j = i
  · rw [h, if_pos rfl]
    exact update_self i held log.held
  · rw [if_neg h]
    exact update_of_ne h held log.held

end WalLog

namespace Matches

variable {pageSize : Nat} {log log' : WalLog} {slots : OrdMap Nat Slot}

section

variable (hm : Matches pageSize log slots)

include hm

/-- Only the frames, what is held of them and the last commit matter. -/
theorem congr (hslot : log'.slot = log.slot)
    (hheld : log'.held = log.held) (hbase : log'.base = log.base) :
    Matches pageSize log' slots := by
  have himage : ∀ i, log'.image i = log.image i := by
    intro i
    simp only [WalLog.image, WalLog.frameHeader, hslot, hheld]
  refine ⟨hm.aligned, fun hi => hm.past (hbase ▸ hi), fun hi hs => ?_, fun hi hh => ?_⟩
  · rw [himage]
    exact hm.image (hbase ▸ hi) hs
  · rw [himage]
    exact hm.held (hbase ▸ hi) (hheld ▸ hh)

/-- Writing the same thing to frame `i` of both keeps them in step. -/
theorem write {i : Nat} {cell : Bytes × Bytes} {held : Bool}
    {s : Slot} (hs : log.base ≤ i → s = (log.write i cell held).image i)
    (hpast : i < log.base → s.data = none) :
    Matches pageSize (log.write i cell held) (slots.insert (frameOffset pageSize i) s) where
  aligned := by
    intro k s' hk
    rw [OrdMap.get?_insert] at hk
    split_ifs at hk with h
    · exact ⟨i, h⟩
    · exact hm.aligned hk
  past := by
    intro j s' hj hk
    rw [OrdMap.get?_insert] at hk
    split_ifs at hk with h
    · obtain rfl := frameOffset_inj.1 h
      exact Option.some.inj hk ▸ hpast hj
    · exact hm.past hj hk
  image := by
    intro j s' hj hk
    rw [OrdMap.get?_insert] at hk
    split_ifs at hk with h
    · obtain rfl := frameOffset_inj.1 h
      exact Option.some.inj hk ▸ hs hj
    · rw [WalLog.image_write_of_ne _ _ _ _ _ fun hji => h (congrArg _ hji)]
      exact hm.image hj hk
  held := by
    intro j hj hh
    rw [OrdMap.get?_insert]
    by_cases hji : j = i
    · subst hji
      rw [if_pos rfl, hs hj]
    · rw [if_neg (mt frameOffset_inj.1 hji), WalLog.image_write_of_ne _ _ _ _ _ hji]
      rw [WalLog.held_write, if_neg hji] at hh
      exact hm.held hj hh

/-- **A commit.**  When every frame of the transaction up to `i` is held, the slots
    up to `i` give exactly the frames the log reads off. -/
theorem slotFrames_eq {i : Nat}
    (hheld : ∀ j, log.base ≤ j → j ≤ i → log.held j = true) :
    WalCapture.slotFrames (slots.filter fun k _ => k < frameOffset pageSize i + 1) =
      log.readFrames i := by
  have hmono := frameOffset_strictMono pageSize
  have hindex : ∀ j, j ∈ List.range' log.base (i + 1 - log.base) ↔ log.base ≤ j ∧ j ≤ i := by
    intro j
    rw [List.mem_range'_1]
    omega
  refine OrdMap.filterMap_entries
    ((List.pairwise_lt_range' _).imp fun h => hmono h) ?_ ?_
  · intro k s hk hsome
    obtain ⟨hk, hle⟩ := OrdMap.get?_filter_eq_some_iff.1 hk
    obtain ⟨j, rfl⟩ := hm.aligned hk
    have hle : frameOffset pageSize j ≤ frameOffset pageSize i :=
      Nat.le_of_lt_succ (of_decide_eq_true hle)
    refine ⟨j, (hindex j).2 ⟨?_, hmono.le_iff_le.1 hle⟩, rfl⟩
    -- A slot before the last commit has no page to give.
    by_contra hpast
    rw [hm.past (Nat.not_le.1 hpast) hk] at hsome
    cases hsome
  · intro j hj
    obtain ⟨hbase, hji⟩ := (hindex j).1 hj
    have hh := hheld j hbase hji
    refine ⟨log.image j, OrdMap.get?_filter_eq_some_iff.2 ⟨hm.held hbase hh, ?_⟩, ?_⟩
    · exact decide_eq_true (Nat.lt_succ_of_le (hmono.le_iff_le.2 hji))
    · simp only [WalLog.image, hh, if_true, Option.map_some]
      rfl

/-- The slots after a commit are in step with the frames after it. -/
theorem commit {i : Nat} (hi : log.base ≤ i)
    (hslot : log'.slot = log.slot) (hheld : log'.held = log.held) (hbase : log'.base = i + 1) :
    Matches pageSize log' (slots.filter fun k _ => frameOffset pageSize i + 1 ≤ k) := by
  have hmono := frameOffset_strictMono pageSize
  have himage : ∀ j, log'.image j = log.image j := by
    intro j
    simp only [WalLog.image, WalLog.frameHeader, hslot, hheld]
  have hlater : ∀ {j}, frameOffset pageSize i + 1 ≤ frameOffset pageSize j ↔ i + 1 ≤ j :=
    fun {j} => hmono.lt_iff_lt (a := i) (b := j)
  refine ⟨fun hk => hm.aligned (OrdMap.get?_filter_eq_some_iff.1 hk).1, ?_, ?_, ?_⟩
  · intro j s hj hk
    have hge := hlater.1 (of_decide_eq_true (OrdMap.get?_filter_eq_some_iff.1 hk).2)
    omega
  · intro j s hj hk
    rw [himage]
    exact hm.image (by omega) (OrdMap.get?_filter_eq_some_iff.1 hk).1
  · intro j hj hh
    rw [himage]
    refine OrdMap.get?_filter_eq_some_iff.2 ⟨hm.held (by omega) (hheld ▸ hh), ?_⟩
    exact decide_eq_true (hlater.2 (hbase ▸ hj))

end

end Matches

/-! ## One piece -/

/-- The capture is in step with the log, `before` having been drained already. -/
structure Follows (before : List TxnView) (pageSize : Nat) (log : WalLog) (st : WalCapture) :
    Prop where
  sync : Matches pageSize log st.slots
  opened : ∀ {i}, log.base ≤ i → i < log.base + log.len → log.held i = true
  half : log.half = true →
    st.slots.get? (frameOffset pageSize (log.base + log.len)) =
      some (log.image (log.base + log.len))
  history : before ++ st.committed.map CommittedTxn.view = log.committed

namespace Follows

variable {before : List TxnView} {pageSize : Nat} {log : WalLog} {st : WalCapture}

section

variable (hf : Follows before pageSize log st)

include hf

/-- **A complete frame.**  If it is a commit frame, log and capture close the same
    transaction. -/
theorem close {i : Nat} (hbase : log.base ≤ i)
    (hlen : i < log.base + log.len) (hhalf : log.half = false) :
    Follows before pageSize (log.closeAt i)
      (if (log.frameHeader i).dbSizeAfterCommit ≠ 0 then st.emitCommit (frameOffset pageSize i)
       else st) := by
  by_cases hdb : (log.frameHeader i).dbSizeAfterCommit = 0
  · rw [if_neg (not_not.2 hdb), WalLog.closeAt, if_pos hdb]
    exact hf
  have hheld : ∀ j, log.base ≤ j → j ≤ i → log.held j = true :=
    fun j hj hji => hf.opened hj (Nat.lt_of_le_of_lt hji hlen)
  have hframes := hf.sync.slotFrames_eq hheld
  have hne : log.readFrames i ≠ [] := by
    unfold WalLog.readFrames
    rw [Ne, List.map_eq_nil_iff, List.range'_eq_nil_iff]
    omega
  have hget : (st.slots.filter fun k _ => k < frameOffset pageSize i + 1).get?
      (frameOffset pageSize i) = some (log.image i) :=
    OrdMap.get?_filter_eq_some_iff.2
      ⟨hf.sync.held hbase (hheld i hbase (le_refl i)), decide_eq_true (Nat.lt_succ_self _)⟩
  rw [if_pos hdb, WalLog.closeAt, WalCapture.emitCommit]
  rw [if_neg hdb, hframes, if_neg hne, hget]
  refine ⟨hf.sync.commit hbase rfl rfl rfl, ?_, ?_, ?_⟩
  · intro j hj hjlen
    exact hf.opened (by dsimp only at hj; omega) (by dsimp only at hj hjlen; omega)
  · intro h
    rw [hhalf] at h
    cases h
  · rw [List.map_append, ← List.append_assoc, hf.history]
    rfl

/-- **A frame is completed.**  Its page, or all of it, lands in both. -/
theorem complete {i len : Nat} {cell : Bytes × Bytes}
    (hbase : log.base ≤ i) (hi : i < log.base + len)
    (hhigh : ∀ j, log.base + log.len ≤ j → j < log.base + len → j = i)
    {st' : WalCapture} (hcommitted : st'.committed = st.committed)
    (hslots : st'.slots = st.slots.insert (frameOffset pageSize i)
      ⟨(parse cell.1).pageNo, (parse cell.1).dbSizeAfterCommit,
        some cell.2⟩) :
    Follows before pageSize
      (WalLog.closeAt { log.write i cell true with len, half := false } i)
      (if (parse cell.1).dbSizeAfterCommit ≠ 0 then
        st'.emitCommit (frameOffset pageSize i) else st') := by
  have himage := WalLog.image_write_self log i cell true
  have hwritten :
      Follows before pageSize { log.write i cell true with len, half := false } st' := by
    refine ⟨?_, ?_, ?_, ?_⟩
    · rw [hslots]
      refine (hf.sync.write (fun _ => ?_) fun h => absurd hbase (Nat.not_le.2 h)).congr rfl rfl rfl
      rw [himage, if_pos rfl]
    · intro j hj hjlen
      show (log.write i cell true).held j = true
      rw [WalLog.held_write]
      split_ifs with hji
      · rfl
      · refine hf.opened hj ?_
        by_contra hge
        exact hji (hhigh j (Nat.not_lt.1 hge) hjlen)
    · intro h
      cases h
    · rw [hcommitted]
      exact hf.history
  have hclosed := hwritten.close hbase hi rfl
  rwa [show ({ log.write i cell true with len, half := false } : WalLog).frameHeader i =
    parse cell.1 from WalLog.frameHeader_write_self log i cell true] at hclosed

theorem page {i : Nat}
    (hlegal : log.LegalAt pageSize (.page i data)) :
    Follows before pageSize (log.place (.page i data)) (st.place pageSize (.page i data)) := by
  obtain ⟨_, hbase, hpos⟩ := hlegal
  -- The slot is there: its frame was begun just now, or is part of the transaction.
  have hget : st.slots.get? (frameOffset pageSize i) = some (log.image i) := by
    split_ifs at hpos with hhalf
    · rw [hpos]
      exact hf.half hhalf
    · exact hf.sync.held hbase (hf.opened hbase hpos)
  simp only [WalCapture.place, WalCapture.placePage, hget]
  refine hf.complete hbase ?_ ?_ rfl rfl
  · split_ifs at hpos ⊢ <;> omega
  · intro j hj hjlen
    split_ifs at hpos hjlen <;> omega

theorem frame {i : Nat}
    (hlegal : log.LegalAt pageSize (.frame i hdr data)) :
    Follows before pageSize (log.place (.frame i hdr data))
      (st.place pageSize (.frame i hdr data)) := by
  obtain ⟨_, _, _, hbase, hpos⟩ := hlegal
  simp only [WalCapture.place, WalCapture.placeFrame, Slot.receive, Option.isSome_some, and_true]
  refine hf.complete hbase ?_ ?_ rfl rfl
  · omega
  · intro j hj hjlen
    omega

theorem restamp {i : Nat} (hbase : log.base ≤ i)
    (hlen : i < log.base + log.len) (hhalf : log.half = false)
    (hsame : (parse hdr).pageNo = (log.frameHeader i).pageNo) :
    Follows before pageSize ((log.write i (hdr, (log.slot i).2) true).closeAt i)
      (st.place pageSize (.header i hdr)) := by
  have hheld := hf.opened hbase hlen
  have hget := hf.sync.held hbase hheld
  have hdata : (log.image i).data = some (log.slot i).2 := if_pos hheld
  have hpage : (log.image i).pageNo = (parse hdr).pageNo := hsame.symm
  have heta : log.write i (hdr, (log.slot i).2) true =
      { log.write i (hdr, (log.slot i).2) true with len := log.len, half := false } := by
    rw [← hhalf]
    rfl
  simp only [WalCapture.place, WalCapture.placeFrame, Slot.receive, hget, Option.getD_some,
    if_pos hpage, hdata, Option.isSome_some, and_true]
  rw [heta]
  refine hf.complete hbase hlen ?_ rfl rfl
  intro j hj hjlen
  omega

/-- A header alone on a frame before the last commit leaves no page behind. -/
theorem restampPast {i : Nat} {held : Bool}
    (hi : i < log.base) (hhalf : log.half = false) :
    Follows before pageSize (log.write i (hdr, (log.slot i).2) held)
      (st.place pageSize (.header i hdr)) := by
  have hdata : ((st.slots.get? (frameOffset pageSize i)).getD {}).data = none := by
    cases hget : st.slots.get? (frameOffset pageSize i) with
    | none => rfl
    | some s => exact hf.sync.past hi hget
  simp only [WalCapture.place, WalCapture.placeFrame, Slot.receive, hdata, ite_self,
    Option.isSome_none, Bool.false_eq_true, and_false, if_false]
  refine ⟨hf.sync.write (fun h => absurd hi (Nat.not_lt.2 h)) fun _ => rfl, ?_, ?_, hf.history⟩
  · intro j hj hjlen
    have hj : log.base ≤ j := hj
    rw [WalLog.held_write, if_neg (by omega)]
    exact hf.opened hj hjlen
  · intro h
    have h : log.half = true := h
    rw [hhalf] at h
    cases h

theorem begin {i : Nat} {held : Bool}
    (hi : i = log.base + log.len) (hfresh : log.Fresh (.header i hdr))
    (hheld : held = (log.held i &&
      decide ((parse hdr).pageNo = (log.frameHeader i).pageNo))) :
    Follows before pageSize { log.write i (hdr, (log.slot i).2) held with half := true }
      (st.place pageSize (.header i hdr)) := by
  have hbase : log.base ≤ i := by omega
  have himage := WalLog.image_write_self log i (hdr, (log.slot i).2) held
  have hslot : ((st.slots.get? (frameOffset pageSize i)).getD {}).receive
      (parse hdr) none = (log.write i (hdr, (log.slot i).2) held).image i := by
    rw [himage, Slot.receive, hheld]
    congr 1
    cases hget : st.slots.get? (frameOffset pageSize i) with
    | none =>
      have hnot : log.held i = false := by
        by_contra hh
        rw [hf.sync.held hbase (eq_true_of_ne_false hh)] at hget
        cases hget
      simp [hnot]
    | some s =>
      rw [hf.sync.image hbase hget, Option.getD_some]
      by_cases hsame : (parse hdr).pageNo = (log.frameHeader i).pageNo
      · simp [WalLog.image, hsame]
      · simp [WalLog.image, hsame, Ne.symm hsame]
  -- The capture would commit on the spot if it still had a page for this header.
  have hquiet : ¬ ((parse hdr).dbSizeAfterCommit ≠ 0 ∧
      (((st.slots.get? (frameOffset pageSize i)).getD {}).receive
        (parse hdr) none).data.isSome = true) := by
    rintro ⟨hdb, hsome⟩
    rw [hslot, himage] at hsome
    split_ifs at hsome with hkept
    · rw [hheld, Bool.and_eq_true, decide_eq_true_eq] at hkept
      exact hfresh hi hdb hkept.1 hkept.2
    · cases hsome
  simp only [WalCapture.place, WalCapture.placeFrame, if_neg hquiet]
  rw [hslot]
  refine ⟨(hf.sync.write (fun _ => rfl) fun h => absurd hbase (Nat.not_le.2 h)).congr rfl rfl rfl,
    ?_, ?_, hf.history⟩
  · intro j hj hjlen
    have hjlen : j < log.base + log.len := hjlen
    show (log.write i (hdr, (log.slot i).2) held).held j = true
    rw [WalLog.held_write, if_neg (by omega)]
    exact hf.opened hj hjlen
  · intro _
    subst hi
    dsimp only [WalLog.write]
    rw [OrdMap.get?_insert, if_pos rfl]
    rfl

/-- **One piece.** -/
theorem place {p : Piece}
    (hlegal : log.LegalAt pageSize p) (hfresh : log.Fresh p) :
    Follows before pageSize (log.place p) (st.place pageSize p) := by
  cases p with
  | page i data => exact hf.page hlegal
  | frame i hdr data => exact hf.frame hlegal
  | header i hdr =>
    obtain ⟨_, hhalf, hpos⟩ := hlegal
    unfold WalLog.place
    dsimp only
    split_ifs at hpos ⊢ with hpast hopen
    · exact hf.restampPast hpast hhalf
    · have hbase : log.base ≤ i := Nat.not_lt.1 hpast
      rw [hf.opened hbase hopen, decide_eq_true hpos]
      exact hf.restamp hbase hopen hhalf hpos
    · exact hf.begin hpos hfresh rfl

end

end Follows

/-! ## A whole write -/

variable {ps : List Piece}

@[simp] theorem WalLog.header_closeAt (log : WalLog) (i : Nat) :
    (log.closeAt i).header = log.header := by
  unfold closeAt
  dsimp only
  split <;> rfl

@[simp] theorem WalLog.header_place (log : WalLog) (p : Piece) :
    (log.place p).header = log.header := by
  cases p with
  | page i data | frame i hdr data => exact header_closeAt _ i
  | header i hdr =>
    unfold place
    dsimp only
    split_ifs
    · rfl
    · exact header_closeAt _ i
    · rfl

theorem WalLog.header_run (ps : List Piece) (log : WalLog) :
    (Machine.run WalLog.place log ps).header = log.header := by
  induction ps generalizing log with
  | nil => rfl
  | cons p ps ih => rw [Machine.run_cons, ih, header_place]

theorem WalLog.sized_of_legal :
    ∀ {log : WalLog}, log.header = some h → Machine.Meets WalLog.place WalLog.Legal log ps →
      ∀ p ∈ ps, p.Sized h.pageSize := by
  induction ps with
  | nil => intro _ _ _ p hp; cases hp
  | cons q ps ih =>
    intro log hhdr hm p hp
    rcases List.mem_cons.1 hp with rfl | hp
    · obtain ⟨h', hh', hlegal⟩ := hm.1
      obtain rfl : h' = h := Option.some.inj ((Option.mem_def.1 hh').symm.trans hhdr)
      cases p with
      | page i data | header i hdr => exact hlegal.1
      | frame i hdr data => exact ⟨hlegal.1, hlegal.2.1⟩
    · exact ih (by rw [header_place, hhdr]) hm.2 p hp

namespace Follows

variable {before : List TxnView} {pageSize : Nat} {log : WalLog} {st st' : WalCapture}

/-- **The pieces of a write.**  By induction on the pieces; each is legal for the
    log as the pieces before it left it. -/
theorem run :
    ∀ {log : WalLog} {st : WalCapture}, log.header = some h →
      Follows before h.pageSize log st → Machine.Meets WalLog.place WalLog.Legal log ps →
      Machine.Meets WalLog.place WalLog.Fresh log ps →
      Follows before h.pageSize (Machine.run WalLog.place log ps)
        (Machine.run (WalCapture.place h.pageSize) st ps) := by
  induction ps with
  | nil => intro log st _ hf _ _; exact hf
  | cons p ps ih =>
    intro log st hhdr hf hlegal hfresh
    obtain ⟨h', hh', hp⟩ := hlegal.1
    obtain rfl : h' = h := Option.some.inj ((Option.mem_def.1 hh').symm.trans hhdr)
    rw [Machine.run_cons, Machine.run_cons]
    exact ih (by rw [WalLog.header_place, hhdr]) (hf.place hp hfresh.1) hlegal.2 hfresh.2

theorem congr (hf : Follows before pageSize log st) (hslots : st'.slots = st.slots)
    (hcommitted : st'.committed = st.committed) : Follows before pageSize log st' :=
  ⟨hslots ▸ hf.sync, hf.opened, fun h => hslots ▸ hf.half h, hcommitted ▸ hf.history⟩

theorem restart (hslots : st.slots = OrdMap.empty)
    (hhistory : before ++ st.committed.map CommittedTxn.view = log.committed) :
    Follows before pageSize (log.restart h) st where
  sync :=
    { aligned := fun {k s} hk => by rw [hslots] at hk; cases hk
      past := fun {i s} hi _ => absurd hi (Nat.not_lt_zero i)
      image := fun {i s} _ hk => by rw [hslots] at hk; cases hk
      held := fun {i} _ hh => by cases hh }
  opened {i} _ hi := absurd hi (Nat.not_lt_zero i)
  half := nofun
  history := hhistory

end Follows

variable {rest : WalWrite}

namespace WalCapture

variable {st : WalCapture}

theorem emitCommit_header (st : WalCapture) (pos : Nat) :
    (st.emitCommit pos).header = st.header := by
  unfold emitCommit
  dsimp only
  split <;> rfl

theorem header_place (st : WalCapture) (pageSize : Nat) (p : Piece) :
    (st.place pageSize p).header = st.header := by
  have hframe : ∀ pos fh data, (st.placeFrame pos fh data).header = st.header := by
    intro pos fh data
    unfold placeFrame
    dsimp only
    split
    · exact emitCommit_header _ _
    · rfl
  cases p with
  | page i data =>
    unfold place placePage
    dsimp only
    split
    · rfl
    · split
      · exact emitCommit_header _ _
      · rfl
  | frame i hdr data | header i hdr => exact hframe _ _ _

theorem header_run (pageSize : Nat) (ps : List Piece) (st : WalCapture) :
    (Machine.run (place pageSize) st ps).header = st.header := by
  induction ps generalizing st with
  | nil => rfl
  | cons p ps ih => rw [Machine.run_cons, ih, header_place]

/-- A write with a file header in front: the pieces after it meet an empty capture. -/
theorem onWrite_header (hparse : WalHeader.parse hdr = some h) (hlen : hdr.length = walHeaderSize)
    (hlead : rest.lead = none) (hsized : ∀ p ∈ rest.pieces 0, p.Sized h.pageSize) :
    st.onWrite 0 (hdr ++ rest.bytes) =
      Machine.run (place h.pageSize) (st.restart h) (rest.pieces 0) := by
  have hoffset : rest.offset h.pageSize 0 = walHeaderSize := by
    rw [WalWrite.offset, hlead, frameOffset, Nat.zero_mul]
    rfl
  have hconsume : (st.restart h).consume walHeaderSize rest.bytes =
      Machine.run (place h.pageSize) (st.restart h) (rest.pieces 0) := by
    rw [← hoffset]
    exact consume_write rfl (WalHeader.pageSize_pos hparse) hsized
  have hrest : (hdr ++ rest.bytes).drop walHeaderSize = rest.bytes := by
    rw [← hlen, List.drop_left]
  unfold onWrite
  rw [if_pos rfl, WalHeader.parse_append _ hlen, hparse]
  dsimp only
  rw [hrest]
  split_ifs with hnil
  · rw [← hconsume, hnil]
    have hnone : (st.restart h).consume (frameOffset h.pageSize 0) [] = st.restart h :=
      (consume_aligned rfl 0 []).trans (consumeAligned_nil _ _)
    rw [frameOffset, Nat.zero_mul, Nat.add_zero] at hnone
    exact hnone.symm
  · exact hconsume

/-- A write past the file header only adds the overflow check to its pieces. -/
theorem onWrite_write (hhdr : st.header = some h) (hpos : 0 < h.pageSize) {i : Nat}
    (hsized : ∀ p ∈ x.pieces i, p.Sized h.pageSize) :
    st.onWrite (x.offset h.pageSize i) x.bytes =
      (Machine.run (place h.pageSize) st (x.pieces i)).checkRetention := by
  have hfar : walHeaderSize ≤ x.offset h.pageSize i :=
    (walHeaderSize_le_frameOffset h.pageSize i).trans (Nat.le_add_right _ _)
  have hne : x.offset h.pageSize i ≠ 0 := by
    have h32 : walHeaderSize = 32 := rfl
    omega
  unfold onWrite
  rw [if_neg hne]
  rw [consume_write hhdr hpos hsized]

theorem checkRetention_eq (st : WalCapture) :
    ∃ flag, st.checkRetention = { st with overflowed := flag } := by
  unfold checkRetention
  split
  · exact ⟨true, rfl⟩
  · exact ⟨st.overflowed, rfl⟩

end WalCapture

/-! ## Every run -/

namespace WalWorld

/-- What the capture has handed out and still holds is what the log committed, and
    once it has seen a header it is in step with the log. -/
structure Inv (w : WalWorld) : Prop where
  history : w.drained.map CommittedTxn.view ++ w.capture.committed.map CommittedTxn.view =
    w.log.committed
  follows : w.seen = true → ∀ {h}, w.log.header = some h →
    w.capture.header = some h ∧ 0 < h.pageSize ∧
      Follows (w.drained.map CommittedTxn.view) h.pageSize w.log w.capture

theorem inv_attach (header : Option WalHeader) (slot : Nat → Bytes × Bytes) (base limit : Nat) :
    Inv (attach header slot base limit) :=
  ⟨rfl, nofun⟩

namespace Inv

variable {w : WalWorld}

section

variable (hi : Inv w)

include hi

theorem header (hc : w.Careful (.header hdr rest)) :
    Inv (w.stepHeader hdr rest) := by
  unfold stepHeader
  split
  · exact hi
  · next h hparse =>
    split_ifs with hlegal
    · obtain ⟨hlen, hlead, hlegal⟩ := hlegal
      have hcap : w.capture.onWrite 0 (hdr ++ rest.bytes) = _ :=
        WalCapture.onWrite_header hparse hlen hlead (WalLog.sized_of_legal rfl hlegal)
      have hf : Follows (w.drained.map CommittedTxn.view) h.pageSize
          (Machine.run WalLog.place (w.log.restart h) (rest.pieces 0))
          (w.capture.onWrite 0 (hdr ++ rest.bytes)) := by
        have hstart : Follows (w.drained.map CommittedTxn.view) h.pageSize (w.log.restart h)
            (w.capture.restart h) := Follows.restart rfl hi.history
        rw [hcap]
        exact hstart.run rfl hlegal (hc h hparse)
      refine ⟨hf.history, fun _ {h'} hh' => ?_⟩
      obtain rfl : h = h' := Option.some.inj ((WalLog.header_run _ _).symm.trans hh')
      exact ⟨by rw [hcap, WalCapture.header_run]; rfl, WalHeader.pageSize_pos hparse, hf⟩
    · exact hi

theorem write {i : Nat} (hc : w.Careful (.write i x)) :
    Inv (w.stepWrite i x) := by
  obtain ⟨hseen, hfresh⟩ := hc
  unfold stepWrite
  split_ifs with hlegal
  · split
    · exact hi
    · next h hhdr =>
      obtain ⟨hcap, hpos, hf⟩ := hi.follows hseen hhdr
      have hwrite := WalCapture.onWrite_write hcap hpos (WalLog.sized_of_legal hhdr hlegal)
      obtain ⟨flag, hflag⟩ := WalCapture.checkRetention_eq
        (Machine.run (WalCapture.place h.pageSize) w.capture (x.pieces i))
      rw [hflag] at hwrite
      have hf' : Follows (w.drained.map CommittedTxn.view) h.pageSize
          (Machine.run WalLog.place w.log (x.pieces i))
          (w.capture.onWrite (x.offset h.pageSize i) x.bytes) := by
        rw [hwrite]
        exact (hf.run hhdr hlegal hfresh).congr rfl rfl
      refine ⟨hf'.history, fun _ {h'} hh' => ?_⟩
      obtain rfl : h = h' :=
        Option.some.inj ((hhdr.symm.trans (WalLog.header_run _ _).symm).trans hh')
      refine ⟨?_, hpos, hf'⟩
      rw [hwrite]
      exact (WalCapture.header_run _ _ _).trans hcap
  · exact hi

theorem abandon : Inv { w with log := w.log.abandon } := by
  refine ⟨hi.history, fun hseen {h} hh => ?_⟩
  obtain ⟨hcap, hpos, hf⟩ := hi.follows hseen hh
  refine ⟨hcap, hpos, hf.sync.congr rfl rfl rfl, fun {i} hlow hhigh => ?_, ?_, hf.history⟩
  · exact absurd hlow (Nat.not_le.2 hhigh)
  · intro hhalf
    cases hhalf

theorem truncate (size : Nat) : Inv (w.stepTruncate size) := by
  unfold stepTruncate WalCapture.onTruncate
  split_ifs with hsize
  · exact ⟨hi.history, fun _ {h} hh => by cases hh⟩
  · split
    · exact hi
    · split_ifs <;> exact hi

theorem drain : Inv w.stepDrain := by
  have hhistory : w.stepDrain.drained.map CommittedTxn.view = w.log.committed := by
    show (w.drained ++ w.capture.committed).map CommittedTxn.view = w.log.committed
    rw [List.map_append, hi.history]
  refine ⟨by rw [hhistory]; exact List.append_nil _, fun hseen {h} hh => ?_⟩
  obtain ⟨hcap, hpos, hf⟩ := hi.follows hseen hh
  refine ⟨hcap, hpos, hf.sync, hf.opened, hf.half, ?_⟩
  rw [hhistory]
  exact List.append_nil _

theorem step {a : WalAct} (hc : w.Careful a) : Inv (w.step a) := by
  cases a with
  | header hdr rest => exact hi.header hc
  | write i x => exact hi.write hc
  | abandon => exact hi.abandon
  | truncate size => exact hi.truncate size
  | drain => exact hi.drain

end

end Inv

/-- **The capture equals the committed history.**  Whatever file the capture is
    attached to, in every run in which it has seen the header of the log it follows
    and no header that begins a commit frame lands on a leftover frame of the same
    page, the drained transactions are those committed to the log, page for page. -/
theorem captured_eq_committed (header : Option WalHeader) (slot : Nat → Bytes × Bytes)
    (base limit : Nat) (acts : List WalAct)
    (hc : Machine.Meets step Careful (attach header slot base limit) acts) :
    (Machine.run step (attach header slot base limit) acts).captured.map CommittedTxn.view =
      (Machine.run step (attach header slot base limit) acts).committed := by
  have hinv : Inv (Machine.run step (attach header slot base limit) acts) :=
    Machine.invariant_run step (I := Inv) (fun _ _ hc h => h.step hc)
      (inv_attach header slot base limit) hc
  rw [captured, List.map_append]
  exact hinv.history

/-! ### A log of 512-byte pages -/

def sampleHeader : Bytes :=
  [0x37, 0x7f, 0x06, 0x82, 0x00, 0x2d, 0xe2, 0x18, 0, 0, 2, 0] ++ List.replicate 20 1

/-- A frame header with its page number, its database size and nothing else. -/
def sampleFrame (pageNo dbSize : UInt8) : Bytes :=
  [0, 0, 0, pageNo, 0, 0, 0, dbSize] ++ List.replicate 16 0

def samplePage (fill : UInt8) : Bytes := List.replicate 512 fill

def emptyFile : WalWorld := attach none (fun _ => ([], [])) 0 WalCapture.defaultMaxRetainedBytes

/-- Two frames of which the second is restamped as the commit; a frame that is
    rolled back; and a commit on another page in its slot. -/
def reusedSlot : List WalAct :=
  [.header sampleHeader { trail := some (sampleFrame 1 0) },
    .write 0 { lead := some (samplePage 0x11), frames := [(sampleFrame 2 0, samplePage 0x22)] },
    .write 1 { trail := some (sampleFrame 2 2) },
    .write 2 { trail := some (sampleFrame 1 0) },
    .write 2 { lead := some (samplePage 0x33) },
    .abandon,
    .write 2 { trail := some (sampleFrame 2 2) },
    .write 2 { lead := some (samplePage 0x44) },
    .drain]

theorem reusedSlot_careful : Machine.Meets step Careful emptyFile reusedSlot := by decide +kernel

theorem reusedSlot_captured :
    (Machine.run step emptyFile reusedSlot).committed =
        [⟨OrdMap.ofList [(1, samplePage 0x11), (2, samplePage 0x22)], 2⟩,
          ⟨OrdMap.ofList [(2, samplePage 0x44)], 2⟩] ∧
      (Machine.run step emptyFile reusedSlot).captured.map CommittedTxn.view =
        (Machine.run step emptyFile reusedSlot).committed :=
  ⟨by decide +kernel, captured_eq_committed none _ 0 _ reusedSlot reusedSlot_careful⟩

/-- A frame that is rolled back, and a commit on the same page in its slot. -/
def reusedPage : List WalAct :=
  [.header sampleHeader {},
    .write 0 { trail := some (sampleFrame 2 0) },
    .write 0 { lead := some (samplePage 0x33) },
    .abandon,
    .write 0 { trail := some (sampleFrame 2 2) },
    .write 0 { lead := some (samplePage 0x44) },
    .drain]

/-- The commit that was captured is the page of the transaction that was rolled
    back; the page that was committed is nowhere. -/
theorem reusedPage_captures_rolled_back :
    (Machine.run step emptyFile reusedPage).committed =
        [⟨OrdMap.ofList [(2, samplePage 0x44)], 2⟩] ∧
      (Machine.run step emptyFile reusedPage).captured.map CommittedTxn.view =
        [⟨OrdMap.ofList [(2, samplePage 0x33)], 2⟩] := by
  decide +kernel

end WalWorld

end Shardlite.Vfs
