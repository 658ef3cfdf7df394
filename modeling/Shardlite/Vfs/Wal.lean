/-
  Shardlite.Vfs.Wal

  WAL format parsing and frame capture: committed transactions reconstructed
  from the raw byte writes SQLite makes to the `-wal` file.

    WAL header (32 bytes)          Frame (24-byte header + page_size bytes)
      0  magic        u32            0  page number        u32
      8  page size    u32            4  db size in pages   u32  (non-zero: commit)
     12  ckpt seq     u32            8  salt, checksums
     16  salt         8 bytes

  The raw write trace, a diagnostic, is left out.
-/
import Shardlite.Base
import Shardlite.Lib.OrdMap

namespace Shardlite.Vfs

abbrev Bytes := List UInt8

/-! ## The format -/

/-- Both accepted magic values; they differ only in checksum endianness. -/
def walMagicBe : Nat := 0x377f0682

def walMagicLe : Nat := 0x377f0683

def walHeaderSize : Nat := 32

def frameHeaderSize : Nat := 24

/-- The big-endian `u32` at `pos`. -/
def be32 (b : Bytes) (pos : Nat) : Nat :=
  (((b.getD pos 0).toNat * 256 + (b.getD (pos + 1) 0).toNat) * 256
    + (b.getD (pos + 2) 0).toNat) * 256 + (b.getD (pos + 3) 0).toNat

structure WalHeader where
  pageSize : Nat
  checkpointSeq : Nat
  salt : Bytes
  deriving DecidableEq, Repr

/-- A header of either byte order, with a valid page size. -/
def WalHeader.parse (b : Bytes) : Option WalHeader :=
  if b.length < walHeaderSize then none
  else
    let magic := be32 b 0
    if magic ≠ walMagicBe ∧ magic ≠ walMagicLe then none
    else
      -- A page size field of 1 encodes 65536.
      let raw := be32 b 8
      let pageSize := if raw = 1 then 65536 else raw
      if 2 ^ Nat.log2 pageSize = pageSize ∧ 512 ≤ pageSize ∧ pageSize ≤ 65536 then
        some ⟨pageSize, be32 b 12, (b.drop 16).take 8⟩
      else none

structure FrameHeader where
  pageNo : Nat
  /-- Size of the database in pages after this commit; 0 for a non-commit frame. -/
  dbSizeAfterCommit : Nat
  deriving DecidableEq, Repr

def FrameHeader.parse (b : Bytes) : FrameHeader := ⟨be32 b 0, be32 b 4⟩

def frameSize (pageSize : Nat) : Nat := frameHeaderSize + pageSize

/-- Where the header of frame `i` sits in the file. -/
def frameOffset (pageSize i : Nat) : Nat := walHeaderSize + i * frameSize pageSize

structure Frame where
  pageNo : Nat
  data : Bytes
  deriving DecidableEq, Repr

/-- One committed transaction: the pages it wrote, and the database size after it. -/
structure CommittedTxn where
  dbSizePages : Nat
  pageSize : Nat
  frames : List Frame
  /-- Increments whenever the WAL is reset. -/
  generation : Nat
  deriving DecidableEq, Repr

/-! ## The capture -/

/-- One frame slot in the WAL, addressed by its byte offset. -/
structure Slot where
  pageNo : Nat := 0
  dbSizeAfterCommit : Nat := 0
  data : Option Bytes := none
  deriving DecidableEq, Repr

/-- What the slot holds after a frame header, with its page or alone.  A header
    alone over a page of the same number is taken for an in-place rewrite and keeps
    the page; over another page it is a reuse of the slot. -/
def Slot.receive (slot : Slot) (fh : FrameHeader) (data : Option Bytes) : Slot where
  pageNo := fh.pageNo
  dbSizeAfterCommit := fh.dbSizeAfterCommit
  data :=
    match data with
    | some d => some d
    | none => if slot.pageNo = fh.pageNo then slot.data else none

/-- The state behind the mutex of a `WalCapture`. -/
structure WalCapture where
  header : Option WalHeader := none
  generation : Nat := 0
  /-- Frames of the current, not yet committed region, keyed by byte offset. -/
  slots : OrdMap Nat Slot := OrdMap.empty
  committed : List CommittedTxn := []
  resets : Nat := 0
  truncations : Nat := 0
  headerRewrites : Nat := 0
  /-- Bytes of the transactions in `committed`. -/
  retainedBytes : Nat := 0
  overflowed : Bool := false
  maxRetainedBytes : Nat
  deriving DecidableEq

def txnBytes (txns : List CommittedTxn) : Nat :=
  ((txns.flatMap CommittedTxn.frames).map (·.data.length)).sum

namespace WalCapture

def defaultMaxRetainedBytes : Nat := 64 * 1024 * 1024

def withLimit (maxRetainedBytes : Nat) : WalCapture := { maxRetainedBytes }

def new : WalCapture := withLimit defaultMaxRetainedBytes

variable (st : WalCapture)

/-- The page bytes that wait for their commit frame. -/
def pendingBytes : Nat :=
  (st.slots.values.filterMap fun s => s.data.map List.length).sum

/-- The frames of the slots that hold a page, in file order. -/
def slotFrames (slots : OrdMap Nat Slot) : List Frame :=
  slots.entries.filterMap fun e => e.2.data.map fun data => ⟨e.2.pageNo, data⟩

/-- A commit marker landed on the frame at `pos`: every slot up to and including
    it forms one transaction. -/
def emitCommit (pos : Nat) : WalCapture :=
  let txnSlots := st.slots.filter fun k _ => k < pos + 1
  let st := { st with slots := st.slots.filter fun k _ => pos + 1 ≤ k }
  let dbSizePages := ((txnSlots.get? pos).map (·.dbSizeAfterCommit)).getD 0
  let frames := slotFrames txnSlots
  if frames = [] then st
  else
    let txn : CommittedTxn :=
      ⟨dbSizePages, (st.header.map (·.pageSize)).getD 0, frames, st.generation⟩
    let retainedBytes := st.retainedBytes + txnBytes [txn]
    { st with
      retainedBytes
      overflowed := st.overflowed ||
        decide (0 < st.maxRetainedBytes ∧ st.maxRetainedBytes < retainedBytes)
      committed := st.committed ++ [txn] }

/-- One turn of the frame loop: a header at `pos`, and its page if that came in
    the same buffer. -/
def placeFrame (pos : Nat) (fh : FrameHeader) (data : Option Bytes) : WalCapture :=
  let slot := (st.slots.get? pos).getD {}
  let rewrite := slot.data.isSome ∧ data = none ∧ slot.pageNo = fh.pageNo
  let slot := slot.receive fh data
  let st :=
    { st with
      slots := st.slots.insert pos slot
      headerRewrites := if rewrite then st.headerRewrites + 1 else st.headerRewrites }
  -- The commit marker can arrive with the header, or later as a rewrite of a
  -- header whose page was written long before.
  if fh.dbSizeAfterCommit ≠ 0 ∧ slot.data.isSome then st.emitCommit pos else st

/-- Page data for a frame whose header arrived in an earlier write. -/
def placePage (pos : Nat) (data : Bytes) : WalCapture :=
  match st.slots.get? pos with
  | none => st
  | some slot =>
    let st := { st with slots := st.slots.insert pos { slot with data := some data } }
    if slot.dbSizeAfterCommit ≠ 0 then st.emitCommit pos else st

/-- The frame loop.  A buffer may hold a header alone, a whole frame, or several
    frames; each turn takes at least a header, so the length bounds the turns. -/
def consumeFrames (pageSize : Nat) : Nat → WalCapture → Nat → Bytes → WalCapture
  | 0, st, _, _ => st
  | fuel + 1, st, pos, buf =>
    if buf.length < frameHeaderSize then st
    else
      let rest := buf.drop frameHeaderSize
      if pageSize ≤ rest.length then
        consumeFrames pageSize fuel
          (st.placeFrame pos (FrameHeader.parse buf) (some (rest.take pageSize)))
          (pos + frameSize pageSize) (rest.drop pageSize)
      else
        -- page data follows in a later write
        st.placeFrame pos (FrameHeader.parse buf) none

/-- Bytes that must start on a frame boundary. -/
def consumeAligned (pageSize offset : Nat) (buf : Bytes) : WalCapture :=
  if (offset - walHeaderSize) % frameSize pageSize ≠ 0 then st
  else consumeFrames pageSize buf.length st offset buf

def consume (offset : Nat) (buf : Bytes) : WalCapture :=
  match st.header with
  | none => st -- frames before a header are unparseable
  | some header =>
    let pageSize := header.pageSize
    if offset < walHeaderSize then st
    else if (offset - walHeaderSize) % frameSize pageSize = frameHeaderSize ∧
        pageSize ≤ buf.length then
      let st := st.placePage (offset - frameHeaderSize) (buf.take pageSize)
      let rest := buf.drop pageSize
      -- The recursive call of the source: past the page is a frame boundary, so it
      -- cannot come back to this branch.
      if rest = [] then st else st.consumeAligned pageSize (offset + pageSize) rest
    else st.consumeAligned pageSize offset buf

/-- The overflow check at the end of a write that is not a header. -/
def checkRetention : WalCapture :=
  if 0 < st.maxRetainedBytes ∧ st.overflowed = false ∧
      st.maxRetainedBytes < st.retainedBytes + st.pendingBytes then
    { st with overflowed := true }
  else st

/-- A new file header: any uncommitted frames of the previous log are dead. -/
def restart (h : WalHeader) : WalCapture :=
  let changed : Bool := (st.header.map fun old => decide (old.salt ≠ h.salt)).getD false
  { st with
    generation := if changed ∨ st.header = none then st.generation + 1 else st.generation
    resets := if changed then st.resets + 1 else st.resets
    header := some h
    slots := OrdMap.empty }

/-- Feed one write that SQLite made to the `-wal` file. -/
def onWrite (offset : Nat) (buf : Bytes) : WalCapture :=
  match (if offset = 0 then WalHeader.parse buf else none) with
  | some h =>
    let st := st.restart h
    -- A header write can carry frames in the same buffer.
    let rest := buf.drop walHeaderSize
    if rest = [] then st else st.consume walHeaderSize rest
  | none => (st.consume offset buf).checkRetention

/-- The WAL file was truncated: everything not yet committed is gone. -/
def onTruncate (size : Nat) : WalCapture :=
  if size < walHeaderSize then
    { st with slots := OrdMap.empty, header := none, truncations := st.truncations + 1 }
  else st

/-- Remove and return every transaction committed so far. -/
def drainCommitted : List CommittedTxn × WalCapture :=
  let retainedBytes := st.retainedBytes - txnBytes st.committed
  (st.committed,
    { st with
      committed := []
      retainedBytes
      overflowed := st.overflowed && !decide (retainedBytes + st.pendingBytes ≤
        st.maxRetainedBytes) })

/-- Return drained transactions to the front of the queue. -/
def requeue (txns : List CommittedTxn) : WalCapture :=
  if txns = [] then st
  else
    let retainedBytes := st.retainedBytes + txnBytes txns
    { st with
      retainedBytes
      overflowed := st.overflowed ||
        decide (0 < st.maxRetainedBytes ∧ st.maxRetainedBytes < retainedBytes)
      committed := txns ++ st.committed }

end WalCapture

end Shardlite.Vfs
