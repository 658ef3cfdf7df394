/-
  Shardlite.Vfs.WalLog

  The log behind the capture: what SQLite's writes leave in the `-wal` file, and
  the transactions that can be read off it at each commit frame.

  A write is cut along the frame structure into pieces: the page of a frame whose
  header came earlier, whole frames, and a header whose page comes later.  The log
  knows which frames belong to the open transaction, so it can tell a header that
  begins a frame from one that restamps a frame already written.
-/
import Shardlite.Lib.Machine
import Shardlite.Vfs.Wal

namespace Shardlite.Vfs

/-! ## A transaction as its effect on the database -/

/-- A transaction as a map from page to final content, and the database size. -/
structure TxnView where
  pages : OrdMap Nat Bytes
  dbSizePages : Nat
  deriving DecidableEq

def TxnView.ofFrames (frames : List Frame) (dbSizePages : Nat) : TxnView :=
  ⟨OrdMap.ofList (frames.map fun f => (f.pageNo, f.data)), dbSizePages⟩

/-- What a transaction does to the database. -/
def CommittedTxn.view (txn : CommittedTxn) : TxnView := .ofFrames txn.frames txn.dbSizePages

/-! ## Writes -/

/-- One part of a write, with the index of the frame it belongs to. -/
inductive Piece where
  /-- The page of a frame whose header is already in the file. -/
  | page (i : Nat) (data : Bytes)
  | frame (i : Nat) (hdr data : Bytes)
  /-- A frame header without its page. -/
  | header (i : Nat) (hdr : Bytes)
  deriving DecidableEq

/-- A write past the file header: a page, then whole frames, then a header, each
    part optional. -/
structure WalWrite where
  lead : Option Bytes := none
  frames : List (Bytes × Bytes) := []
  trail : Option Bytes := none
  deriving DecidableEq

/-- The pieces of whole frames from index `i` on and a header after them. -/
def framePieces (trail : Option Bytes) (i : Nat) : List (Bytes × Bytes) → List Piece
  | [] => (trail.map (Piece.header i)).toList
  | f :: fs => .frame i f.1 f.2 :: framePieces trail (i + 1) fs

def frameBytes (trail : Option Bytes) : List (Bytes × Bytes) → Bytes
  | [] => trail.getD []
  | f :: fs => f.1 ++ (f.2 ++ frameBytes trail fs)

namespace WalWrite

/-- The pieces of a write whose first part belongs to frame `i`. -/
def pieces (w : WalWrite) (i : Nat) : List Piece :=
  match w.lead with
  | none => framePieces w.trail i w.frames
  | some data => .page i data :: framePieces w.trail (i + 1) w.frames

def bytes (w : WalWrite) : Bytes := w.lead.getD [] ++ frameBytes w.trail w.frames

def offset (w : WalWrite) (pageSize i : Nat) : Nat :=
  frameOffset pageSize i + if w.lead.isSome then frameHeaderSize else 0

end WalWrite

/-! ## The log -/

/-- The log file as SQLite reads it. -/
structure WalLog where
  header : Option WalHeader
  /-- Header and page bytes of every frame of the file. -/
  slot : Nat → Bytes × Bytes
  /-- The frame's page was written since the log was started, for the page number
      that stands in its header. -/
  held : Nat → Bool
  /-- Frames up to and including the last commit frame. -/
  base : Nat
  /-- Frames of the open transaction after those. -/
  len : Nat
  /-- The next frame's header is written and its page is not. -/
  half : Bool
  committed : List TxnView

namespace WalLog

variable (log : WalLog)

def frameHeader (i : Nat) : FrameHeader := FrameHeader.parse (log.slot i).1

def readFrame (i : Nat) : Frame := ⟨(log.frameHeader i).pageNo, (log.slot i).2⟩

/-- The frames after the last commit frame up to frame `i`. -/
def readFrames (i : Nat) : List Frame :=
  (List.range' log.base (i + 1 - log.base)).map log.readFrame

def write (i : Nat) (cell : Bytes × Bytes) (held : Bool) : WalLog :=
  { log with
    slot := Function.update log.slot i cell
    held := Function.update log.held i held }

/-- Frame `i` is complete: if it is a commit frame, the transaction it closes is
    read off the file. -/
def closeAt (i : Nat) : WalLog :=
  let dbSize := (log.frameHeader i).dbSizeAfterCommit
  if dbSize = 0 then log
  else
    { log with
      committed := log.committed ++ [.ofFrames (log.readFrames i) dbSize]
      base := i + 1
      len := log.base + log.len - (i + 1) }

/-- A piece is written; a commit frame closes a transaction. -/
def place : Piece → WalLog
  | .page i data =>
    let len := if log.half then log.len + 1 else log.len
    closeAt { log.write i ((log.slot i).1, data) true with len, half := false } i
  | .frame i hdr data =>
    let len := max log.len (i + 1 - log.base)
    closeAt { log.write i (hdr, data) true with len, half := false } i
  | .header i hdr =>
    let samePage := (FrameHeader.parse hdr).pageNo = (log.frameHeader i).pageNo
    let log' := log.write i (hdr, (log.slot i).2) (log.held i && decide samePage)
    if i < log.base then log'
    else if i < log.base + log.len then log'.closeAt i
    else { log' with half := true }

/-- The pieces SQLite writes.  Frames are appended to the open transaction or
    rewritten inside it; a header alone begins the next frame, or restamps one that
    is already in the file; a page alone completes the frame just begun, or
    replaces a page of the open transaction. -/
def LegalAt (pageSize : Nat) : Piece → Prop
  | .page i data =>
    data.length = pageSize ∧ log.base ≤ i ∧
      if log.half then i = log.base + log.len else i < log.base + log.len
  | .frame i hdr data =>
    hdr.length = frameHeaderSize ∧ data.length = pageSize ∧ log.half = false ∧
      log.base ≤ i ∧ i ≤ log.base + log.len
  | .header i hdr =>
    hdr.length = frameHeaderSize ∧ log.half = false ∧
      if i < log.base then FrameHeader.parse hdr = log.frameHeader i
      else if i < log.base + log.len then
        (FrameHeader.parse hdr).pageNo = (log.frameHeader i).pageNo
      else i = log.base + log.len

instance (pageSize : Nat) (p : Piece) : Decidable (log.LegalAt pageSize p) := by
  unfold LegalAt
  split <;> infer_instance

/-- Pieces are only written to a file that has its header. -/
def Legal (p : Piece) : Prop := ∃ h ∈ log.header, log.LegalAt h.pageSize p

instance (p : Piece) : Decidable (log.Legal p) :=
  inferInstanceAs (Decidable (∃ h ∈ log.header, _))

/-- A header that begins a commit frame does not land on a frame whose page was
    written for the same page number. -/
def Fresh : Piece → Prop
  | .header i hdr =>
    i = log.base + log.len → (FrameHeader.parse hdr).dbSizeAfterCommit ≠ 0 →
      log.held i = true → (FrameHeader.parse hdr).pageNo ≠ (log.frameHeader i).pageNo
  | _ => True

instance : ∀ p, Decidable (log.Fresh p)
  | .page .. => inferInstanceAs (Decidable True)
  | .frame .. => inferInstanceAs (Decidable True)
  | .header .. => inferInstanceAs (Decidable (_ → _ → _ → _))

/-- A new header makes every old frame invalid. -/
def restart (h : WalHeader) : WalLog :=
  { log with header := some h, held := fun _ => false, base := 0, len := 0, half := false }

/-- A rollback: the frames of the open transaction are left behind. -/
def abandon : WalLog := { log with len := 0, half := false }

def truncate : WalLog :=
  { log with header := none, held := fun _ => false, base := 0, len := 0, half := false }

end WalLog

/-! ## The log and its capture, side by side -/

/-- The log, and the capture that watches it. -/
structure WalWorld where
  log : WalLog
  capture : WalCapture
  /-- A file header was written since the capture was attached. -/
  seen : Bool
  drained : List CommittedTxn

/-- What SQLite does to the file, and when it is drained. -/
inductive WalAct where
  | header (hdr : Bytes) (w : WalWrite)
  | write (i : Nat) (w : WalWrite)
  | abandon
  | truncate (size : Nat)
  | drain

namespace WalWorld

/-- A capture that is attached to a file with `base` frames in it. -/
def attach (header : Option WalHeader) (slot : Nat → Bytes × Bytes) (base limit : Nat) :
    WalWorld where
  log := ⟨header, slot, fun _ => false, base, 0, false, []⟩
  capture := .withLimit limit
  seen := false
  drained := []

variable (w : WalWorld)

/-- A file header, and what comes after it in the same write. -/
def stepHeader (hdr : Bytes) (rest : WalWrite) : WalWorld :=
  match WalHeader.parse hdr with
  | none => w
  | some h =>
    if hdr.length = walHeaderSize ∧ rest.lead = none ∧
        Machine.Meets WalLog.place WalLog.Legal (w.log.restart h) (rest.pieces 0) then
      { w with
        log := Machine.run WalLog.place (w.log.restart h) (rest.pieces 0)
        capture := w.capture.onWrite 0 (hdr ++ rest.bytes)
        seen := true }
    else w

def stepWrite (i : Nat) (x : WalWrite) : WalWorld :=
  if Machine.Meets WalLog.place WalLog.Legal w.log (x.pieces i) then
    match w.log.header with
    | none => w
    | some h =>
      { w with
        log := Machine.run WalLog.place w.log (x.pieces i)
        capture := w.capture.onWrite (x.offset h.pageSize i) x.bytes }
  else w

/-- Either the whole file goes, or only what lies past the frames in use. -/
def stepTruncate (size : Nat) : WalWorld :=
  if size < walHeaderSize then
    { w with log := w.log.truncate, capture := w.capture.onTruncate size }
  else
    match w.log.header with
    | none => w
    | some h =>
      if frameOffset h.pageSize (w.log.base + w.log.len) ≤ size then
        { w with capture := w.capture.onTruncate size }
      else w

/-- The commits captured so far are taken out. -/
def stepDrain : WalWorld :=
  { w with
    drained := w.drained ++ w.capture.drainCommitted.1
    capture := w.capture.drainCommitted.2 }

def step : WalAct → WalWorld
  | .header hdr rest => w.stepHeader hdr rest
  | .write i x => w.stepWrite i x
  | .abandon => { w with log := w.log.abandon }
  | .truncate size => w.stepTruncate size
  | .drain => w.stepDrain

/-- Everything captured so far, in order. -/
def captured : List CommittedTxn := w.drained ++ w.capture.drainCommitted.1

/-- The transactions committed by the writes so far, each read off the log when
    its commit frame was complete. -/
def committed : List TxnView := w.log.committed

/-- The capture has seen the header of the log it follows, and no header that
    begins a commit frame lands on a leftover frame of the same page. -/
def Careful : WalAct → Prop
  | .header hdr rest =>
    ∀ h ∈ WalHeader.parse hdr,
      Machine.Meets WalLog.place WalLog.Fresh (w.log.restart h) (rest.pieces 0)
  | .write i x =>
    w.seen = true ∧ Machine.Meets WalLog.place WalLog.Fresh w.log (x.pieces i)
  | _ => True

instance (a : WalAct) : Decidable (w.Careful a) := by
  unfold Careful
  split <;> infer_instance

end WalWorld

end Shardlite.Vfs
