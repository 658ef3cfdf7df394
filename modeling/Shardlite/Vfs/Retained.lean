/-
  Shardlite.Vfs.Retained

  What a capture retains.  Writes, truncations, drains and requeues each update
  the queue of committed transactions, its byte counter and the overflow flag; the
  counter stays the size of the queue, and a write never looks at what is waiting,
  so a capture that was drained runs beside one that was not.
-/
import Shardlite.Vfs.Wal
import Shardlite.Lib.Machine

namespace Shardlite.Vfs

inductive CaptureAct where
  | write (offset : Nat) (buf : Bytes)
  | truncate (size : Nat)
  | drain
  | requeue (txns : List CommittedTxn)

/-- What SQLite does to the file, as opposed to what the sink does to the queue. -/
def CaptureAct.OfFile : CaptureAct → Prop
  | .write .. | .truncate _ => True
  | .drain | .requeue _ => False

def WalCapture.step (st : WalCapture) : CaptureAct → WalCapture
  | .write offset buf => st.onWrite offset buf
  | .truncate size => st.onTruncate size
  | .drain => st.drainCommitted.2
  | .requeue txns => st.requeue txns

theorem txnBytes_append (a b : List CommittedTxn) : txnBytes (a ++ b) = txnBytes a + txnBytes b := by
  unfold txnBytes
  rw [List.flatMap_append, List.map_append, List.sum_append]

/-- The counter is the size of the queue, and the flag is up while it is too large. -/
structure WalCapture.Counted (limit : Nat) (st : WalCapture) : Prop where
  max : st.maxRetainedBytes = limit
  bytes : st.retainedBytes = txnBytes st.committed
  flagged : 0 < limit → limit < st.retainedBytes → st.overflowed = true

/-- Two captures of one file, of which the first still has `taken` waiting. -/
structure WalCapture.Ahead (limit : Nat) (taken : List CommittedTxn) (st st' : WalCapture) :
    Prop where
  header : st.header = st'.header
  generation : st.generation = st'.generation
  slots : st.slots = st'.slots
  committed : st.committed = taken ++ st'.committed
  counted : st.Counted limit
  counted' : st'.Counted limit

variable {limit : Nat} {taken txns : List CommittedTxn} {st st' : WalCapture}

namespace WalCapture

section

variable (h : st.Counted limit)

include h

theorem Counted.more (hmax : st'.maxRetainedBytes = st.maxRetainedBytes)
    (hbytes : st'.retainedBytes = st.retainedBytes + txnBytes txns)
    (hqueue : txnBytes st'.committed = txnBytes st.committed + txnBytes txns)
    (hflag : st'.overflowed = (st.overflowed || decide (0 < st.maxRetainedBytes ∧
      st.maxRetainedBytes < st.retainedBytes + txnBytes txns))) : st'.Counted limit := by
  refine ⟨hmax.trans h.max, by rw [hbytes, hqueue, h.bytes], fun hpos hover => ?_⟩
  rw [hflag, Bool.or_eq_true, decide_eq_true_eq, h.max]
  exact .inr ⟨hpos, lt_of_lt_of_eq hover hbytes⟩

theorem Counted.requeue (txns : List CommittedTxn) :
    (st.requeue txns).Counted limit := by
  unfold WalCapture.requeue
  split_ifs
  · exact h
  · exact h.more rfl rfl ((txnBytes_append ..).trans (Nat.add_comm ..)) rfl

theorem Counted.drain : st.drainCommitted.2.Counted limit := by
  have hnone : st.retainedBytes - txnBytes st.committed = 0 := by
    rw [h.bytes, Nat.sub_self]
  refine ⟨h.max, hnone, fun _ hover => ?_⟩
  exact absurd (lt_of_lt_of_eq hover hnone) (Nat.not_lt_zero _)

theorem Counted.raise (up : Bool) :
    Counted limit { st with overflowed := st.overflowed || up } :=
  ⟨h.max, h.bytes, fun hpos hover => by rw [h.flagged hpos hover, Bool.true_or]⟩

end

theorem checkRetention_raises (st : WalCapture) :
    ∃ up, st.checkRetention = { st with overflowed := st.overflowed || up } := by
  unfold checkRetention
  split_ifs
  · exact ⟨true, by rw [Bool.or_true]⟩
  · exact ⟨false, by rw [Bool.or_false]⟩

/-! ## The file's writes, on both -/

namespace Ahead

section

variable (h : Ahead limit taken st st')

include h

theorem place (slots : OrdMap Nat Slot) (n n' : Nat) :
    Ahead limit taken { st with slots, headerRewrites := n }
      { st' with slots, headerRewrites := n' } :=
  ⟨h.header, h.generation, rfl, h.committed, { h.counted with }, { h.counted' with }⟩

theorem emitCommit (pos : Nat) :
    Ahead limit taken (st.emitCommit pos) (st'.emitCommit pos) := by
  simp only [WalCapture.emitCommit, h.header, h.generation, h.slots]
  split_ifs
  · exact ⟨rfl, rfl, rfl, h.committed, { h.counted with }, { h.counted' with }⟩
  · refine ⟨rfl, rfl, rfl, ?_, h.counted.more rfl rfl (txnBytes_append ..) rfl,
      h.counted'.more rfl rfl (txnBytes_append ..) rfl⟩
    rw [h.committed, List.append_assoc]

theorem placeFrame (pos : Nat) (fh : FrameHeader)
    (data : Option Bytes) :
    Ahead limit taken (st.placeFrame pos fh data) (st'.placeFrame pos fh data) := by
  simp only [WalCapture.placeFrame, h.slots]
  split_ifs <;> first | exact (h.place _ _ _).emitCommit pos | exact h.place _ _ _

theorem placePage (pos : Nat) (data : Bytes) :
    Ahead limit taken (st.placePage pos data) (st'.placePage pos data) := by
  simp only [WalCapture.placePage, h.slots]
  split
  · exact h
  · split_ifs
    · exact (h.place _ st.headerRewrites st'.headerRewrites).emitCommit pos
    · exact h.place _ st.headerRewrites st'.headerRewrites

end

theorem consumeFrames (pageSize fuel : Nat) :
    ∀ {st st' : WalCapture}, Ahead limit taken st st' → ∀ (pos : Nat) (buf : Bytes),
      Ahead limit taken (WalCapture.consumeFrames pageSize fuel st pos buf)
        (WalCapture.consumeFrames pageSize fuel st' pos buf) := by
  induction fuel with
  | zero => exact fun h _ _ => h
  | succ fuel ih =>
    intro st st' h pos buf
    simp only [WalCapture.consumeFrames]
    split_ifs
    · exact h
    · exact ih (h.placeFrame ..) _ _
    · exact h.placeFrame ..

section

variable (h : Ahead limit taken st st')

include h

theorem consumeAligned (pageSize offset : Nat) (buf : Bytes) :
    Ahead limit taken (st.consumeAligned pageSize offset buf)
      (st'.consumeAligned pageSize offset buf) := by
  unfold WalCapture.consumeAligned
  split_ifs
  · exact h
  · exact consumeFrames _ _ h _ _

theorem consume (offset : Nat) (buf : Bytes) :
    Ahead limit taken (st.consume offset buf) (st'.consume offset buf) := by
  simp only [WalCapture.consume, h.header]
  split
  · exact h
  · split_ifs
    · exact h
    · exact h.placePage ..
    · exact (h.placePage ..).consumeAligned ..
    · exact h.consumeAligned ..

theorem onWrite (offset : Nat) (buf : Bytes) :
    Ahead limit taken (st.onWrite offset buf) (st'.onWrite offset buf) := by
  have hrestart : ∀ hdr, Ahead limit taken (st.restart hdr) (st'.restart hdr) := fun hdr =>
    { header := rfl
      generation := by simp only [WalCapture.restart, h.header, h.generation]
      slots := rfl
      committed := h.committed
      counted := { h.counted with }
      counted' := { h.counted' with } }
  unfold WalCapture.onWrite
  split
  · dsimp only
    split_ifs
    · exact hrestart _
    · exact (hrestart _).consume ..
  · obtain ⟨up, hup⟩ := checkRetention_raises (st.consume offset buf)
    obtain ⟨up', hup'⟩ := checkRetention_raises (st'.consume offset buf)
    have hafter := h.consume offset buf
    rw [hup, hup']
    exact ⟨hafter.header, hafter.generation, hafter.slots, hafter.committed,
      hafter.counted.raise up, hafter.counted'.raise up'⟩

theorem onTruncate (size : Nat) :
    Ahead limit taken (st.onTruncate size) (st'.onTruncate size) := by
  unfold WalCapture.onTruncate
  split_ifs
  · exact ⟨rfl, h.generation, rfl, h.committed, { h.counted with }, { h.counted' with }⟩
  · exact h

end

theorem run {acts : List CaptureAct} (hfile : ∀ a ∈ acts, a.OfFile)
    (h : Ahead limit taken st st') :
    Ahead limit taken (Machine.run step st acts) (Machine.run step st' acts) := by
  induction acts generalizing st st' with
  | nil => exact h
  | cons a acts ih =>
    refine ih (fun b hb => hfile b (List.mem_cons_of_mem _ hb)) ?_
    have ha := hfile a List.mem_cons_self
    cases a with
    | write offset buf => exact h.onWrite offset buf
    | truncate size => exact h.onTruncate size
    | drain => exact ha.elim
    | requeue txns => exact ha.elim

end Ahead

theorem Counted.ahead (h : st.Counted limit) : Ahead limit [] st st := ⟨rfl, rfl, rfl, rfl, h, h⟩

theorem Counted.step (h : st.Counted limit) (a : CaptureAct) : (st.step a).Counted limit := by
  cases a with
  | write offset buf => exact (h.ahead.onWrite offset buf).counted
  | truncate size => exact (h.ahead.onTruncate size).counted
  | drain => exact h.drain
  | requeue txns => exact h.requeue txns

theorem Counted.run (h : st.Counted limit) (acts : List CaptureAct) :
    (Machine.run WalCapture.step st acts).Counted limit := by
  induction acts generalizing st with
  | nil => exact h
  | cons a acts ih => exact ih (h.step a)

/-- **Accounting.**  After any writes, truncations, drains and requeues the counter
    is the size of the queue; the flag is up whenever a configured limit is passed,
    and up after a drain only if it still is; and what a drain took goes back ahead
    of all that came after, in the place it would have had without the drain. -/
theorem retained_run (limit : Nat) (acts later : List CaptureAct) :
    let st := Machine.run step (withLimit limit) acts
    let drained := st.drainCommitted
    let back := (Machine.run step drained.2 later).requeue drained.1
    st.retainedBytes = txnBytes st.committed ∧
      (0 < limit → limit < st.retainedBytes → st.overflowed = true) ∧
      (0 < limit → drained.2.overflowed = true →
        limit < drained.2.retainedBytes + drained.2.pendingBytes) ∧
      back.committed = st.committed ++ (Machine.run step drained.2 later).committed ∧
      ((∀ a ∈ later, a.OfFile) → back.committed = (Machine.run step st later).committed) := by
  intro st drained back
  have hinit : (withLimit limit).Counted limit :=
    ⟨rfl, rfl, fun _ hover => absurd hover (Nat.not_lt_zero _)⟩
  have hcounted : st.Counted limit := hinit.run acts
  have hback : back.committed = st.committed ++ (Machine.run step drained.2 later).committed := by
    show (WalCapture.requeue _ st.committed).committed = _
    unfold WalCapture.requeue
    split_ifs with hnone
    · rw [hnone, List.nil_append]
    · rfl
  refine ⟨hcounted.bytes, hcounted.flagged, fun _ hup => ?_, hback, fun hfile => ?_⟩
  · have hkept := (Bool.and_eq_true_iff.1 hup).2
    rw [Bool.not_eq_true', decide_eq_false_iff_not, hcounted.max] at hkept
    exact not_le.1 hkept
  · have hbeside : Ahead limit st.committed st drained.2 :=
      ⟨rfl, rfl, rfl, (List.append_nil _).symm, hcounted, hcounted.drain⟩
    exact hback.trans (hbeside.run hfile).committed.symm

end WalCapture

end Shardlite.Vfs
