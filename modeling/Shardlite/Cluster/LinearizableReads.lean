/-
  Shardlite.Cluster.LinearizableReads

  Reads that must reflect every acknowledged write, while elections and maps move the
  shards.  Each node has a file per shard, seen here as the writes it reflects.  A write
  is committed by a node that has the file and an open gate, and acknowledged later, when
  its quorum answered, or given up.  A query is received, then handled, then run: each a
  step of its own.

  A node's mode says who owns the file: SQLite, and then the node counts as the shard's
  leader for reads, or the replication path, and then the node answers a query for the
  current state only if it is made to.  Nothing ties the mode to the gate, to a term or to
  what other nodes acknowledged: a deposed leader keeps it, a restart sets it.

  What is proved is what the mode has to mean for `can_serve_read` to be right.  If files
  are handed on whole, so that a node that takes one has every write acknowledged or still
  to be, and only one node has a file that is being written, then every node that has a
  file has every acknowledged write, in every run.

  `acked` and `answers` are history: the writes acknowledged by any node, and every query
  that was run, with the acknowledged writes at the time it was received.
-/
import Shardlite.Cluster.SingleWriter
import Shardlite.Net.ServeRead

namespace Shardlite.Cluster

open Function

open Shardlite.Net (ShardMode QueryRequest ReadConsistency ShardView)

/-- A query that has been received.  `running` is whether it is to be run here. -/
structure PendingQuery where
  node : NodeId
  shard : ShardId
  request : QueryRequest
  /-- The writes of the shard that were acknowledged when it was received. -/
  before : List Nat
  running : Bool := false

structure QueryAnswer where
  query : PendingQuery
  /-- The writes that the rows reflect. -/
  rows : List Nat

/-- What an answer owes to a query that asks for the current state. -/
def QueryAnswer.Current (a : QueryAnswer) : Prop :=
  a.query.request.consistency = .linearizable → ∀ k ∈ a.query.before, k ∈ a.rows

instance (a : QueryAnswer) : Decidable a.Current := inferInstanceAs (Decidable (_ → _))

/-- Gates, file modes, files and queries of all nodes. -/
structure ReadNet where
  gate : GateNet
  modes : NodeId → ShardId → ShardMode := fun _ _ => .led
  /-- What the handover in flight at a node gains. -/
  gaining : NodeId → List ShardId := fun _ => []
  /-- The writes that a node's file reflects. -/
  files : NodeId → ShardId → List Nat := fun _ _ => []
  lastLsn : NodeId → ShardId → Nat := fun _ _ => 0
  applied : NodeId → ShardId → Option Nat := fun _ _ => none
  nextWrite : Nat := 0
  /-- Committed writes whose acknowledgement is still to come, by node and shard. -/
  waiting : List (NodeId × ShardId × Nat) := []
  acked : List (ShardId × Nat) := []
  pending : List PendingQuery := []
  answers : List QueryAnswer := []

structure ReadSystem where
  gate : GateSystem
  /-- The nodes of the cluster. -/
  nodes : Finset NodeId
  router : NodeId → Bool

/-- What gates, handovers, writers and queries do. -/
inductive ReadAct where
  | gate (a : GateAct)
  /-- A handover takes its next step.  One that fails to give up a shard has marked the
      first `handed` as followed. -/
  | handover (i : NodeId) (ok : Bool) (handed : Nat)
  /-- The transfer and split supervisors hand a file over. -/
  | setMode (i : NodeId) (s : ShardId) (mode : ShardMode)
  | write (i : NodeId) (s : ShardId)
  | ack (i : NodeId) (s : ShardId) (k : Nat)
  /-- The quorum does not answer in time, and the client is told so. -/
  | giveUp (i : NodeId) (s : ShardId) (k : Nat)
  /-- Replication or a recovery rewrites a file. -/
  | rewrite (i : NodeId) (s : ShardId) (file : List Nat)
  | progress (i : NodeId) (s : ShardId) (lastLsn : Nat) (applied : Option Nat)
  | receive (i : NodeId) (s : ShardId) (request : QueryRequest)
  | handle (n : Nat)
  | answer (n : Nat)

def GateAct.actor : GateAct → NodeId
  | .election a => a.actor
  | .plan i _ | .resume i _ | .applyHeartbeat i _ | .stepDown i _ | .closeShard i _ => i
  | .splitTick i | .survey i .. | .cordon i _ | .changeCatalog i _ => i

namespace ReadNet

variable (w : ReadNet) (i : NodeId) (s : ShardId)

def IsOpen : Prop := (w.gate.hosts i).fence.isOpen s = true

instance : Decidable (w.IsOpen i s) := inferInstanceAs (Decidable (_ = _))

/-- The writes that were acknowledged or still may be. -/
def owed : List (ShardId × Nat) := w.acked ++ w.waiting.map (·.2)

def ackedOf : List Nat := (w.acked.filter (·.1 = s)).map (·.2)

def setModes (modes : ShardId → ShardMode) : ReadNet :=
  { w with modes := update w.modes i modes }

def setFile (file : List Nat) : ReadNet :=
  { w with files := update w.files i (update (w.files i) s file) }

theorem setFile_files (file : List Nat) (j : NodeId) (s' : ShardId) :
    (w.setFile i s file).files j s' = if j = i ∧ s' = s then file else w.files j s' := by
  unfold setFile
  by_cases hj : j = i
  · subst hj
    by_cases hs : s' = s
    · subst hs
      simp
    · simp [hs]
  · simp [hj]

def marked (shards : List ShardId) (mode : ShardMode) : ShardId → ShardMode :=
  fun s => if s ∈ shards then mode else w.modes i s

/-- The modes of a map that is applied at once. -/
def adopted (p : Placement) : ShardId → ShardMode :=
  let h := w.gate.hosts i
  if h.applying.isSome ∨ h.placement = p ∨ h.ownership then w.modes i
  else fun s =>
    match p.owner s with
    | none => w.modes i s
    | some n => if n = h.node then .led else .followed

/-- What a node's `serve_read` sees of a shard. -/
def view (router : Bool) : ShardView where
  node := (w.gate.hosts i).node
  mode := w.modes i s
  lastLsn := w.lastLsn i s
  applied := w.applied i s
  router := router
  owner := (w.gate.hosts i).placement.owner s
  catalog := (w.gate.hosts i).catalog.map (·.routingEpoch)

/-- A writer commits: SQLite owns the file and the gate is open. -/
def write : ReadNet :=
  if w.modes i s = .led ∧ w.IsOpen i s then
    { w.setFile i s (w.files i s ++ [w.nextWrite]) with
      nextWrite := w.nextWrite + 1
      waiting := (i, s, w.nextWrite) :: w.waiting }
  else w

def giveUp (k : Nat) : ReadNet := { w with waiting := w.waiting.erase (i, s, k) }

def ack (k : Nat) : ReadNet :=
  if (i, s, k) ∈ w.waiting then { w.giveUp i s k with acked := (s, k) :: w.acked } else w

def receive (request : QueryRequest) : ReadNet :=
  { w with pending := w.pending ++ [⟨i, s, request, w.ackedOf s, false⟩] }

/-- The query runs on the node's file as it is now. -/
def answer (n : Nat) : ReadNet :=
  match w.pending[n]? with
  | some q =>
    if q.running then
      { w with
        pending := w.pending.eraseIdx n
        answers := ⟨q, w.files q.node q.shard⟩ :: w.answers }
    else w
  | none => w

end ReadNet

namespace ReadSystem

variable (sys : ReadSystem)

def init : ReadNet := { gate := sys.gate.init }

variable (w : ReadNet)

def gateStep (a : GateAct) : ReadNet :=
  { w with gate := sys.gate.step w.gate a }

/-- Files being lost are handed to replication, files being gained are taken from it. -/
def handover (i : NodeId) (ok : Bool) (handed : Nat) : ReadNet :=
  let next := sys.gateStep w (.resume i ok)
  match (w.gate.hosts i).applying with
  | some ⟨p, .comparing held⟩ =>
    let want := p.shardsFor (w.gate.hosts i).node
    let losing := held.filter (· ∉ want)
    let losing := if ok then losing else losing.take handed
    { next.setModes i (w.marked i losing .followed) with
      gaining := update w.gaining i (want.filter (· ∉ held)) }
  | some ⟨_, .settling⟩ =>
    if ok then next.setModes i (w.marked i (w.gaining i) .led) else next
  | _ => next

/-- The map that a step applies, with its node. -/
def applies (w : GateNet) : GateAct → Option (NodeId × Placement)
  | .plan i term => if (i, term) ∈ w.net.elected then some (i, (w.hosts i).plan term) else none
  | .applyHeartbeat i hb =>
    if .heartbeat hb ∈ w.net.sent ∧ i ≠ hb.leader ∧ hb.term ≥ (w.net.nodes i).term ∧
        hb.placement.term ≥ (w.hosts i).placement.term then some (i, hb.placement)
    else none
  | _ => none

def placed (a : GateAct) : ReadNet :=
  match applies w.gate a with
  | some (i, p) => (sys.gateStep w a).setModes i (w.adopted i p)
  | none => sys.gateStep w a

/-- A restarted node has every file, and nobody waits for its acknowledgements. -/
def restart (i : NodeId) (now : Instant) : ReadNet :=
  { (sys.gateStep w (.election (.restart i now))).setModes i fun _ => .led with
    waiting := w.waiting.filter (·.1 ≠ i) }

/-- A query that is forwarded or refused is done with here; its owner receives it anew. -/
def handle (n : Nat) : ReadNet :=
  match w.pending[n]? with
  | some q =>
    match (w.view q.node q.shard (sys.router q.node)).handle q.request with
    | .handleLocal => { w with pending := w.pending.set n { q with running := true } }
    | _ => { w with pending := w.pending.eraseIdx n }
  | none => w

/-- One act; acts of nodes outside the cluster do nothing. -/
def step : ReadAct → ReadNet
  | .gate (.resume i ok) => if i ∈ sys.nodes then sys.handover w i ok 0 else w
  | .gate (.election (.restart i now)) => if i ∈ sys.nodes then sys.restart w i now else w
  | .gate a => if a.actor ∈ sys.nodes then sys.placed w a else w
  | .handover i ok handed => if i ∈ sys.nodes then sys.handover w i ok handed else w
  | .setMode i s mode => w.setModes i (w.marked i [s] mode)
  | .write i s => if i ∈ sys.nodes then w.write i s else w
  | .ack i s k => w.ack i s k
  | .giveUp i s k => w.giveUp i s k
  | .rewrite i s file => w.setFile i s file
  | .progress i s lastLsn applied =>
    { w with
      lastLsn := update w.lastLsn i (update (w.lastLsn i) s lastLsn)
      applied := update w.applied i (update (w.applied i) s applied) }
  | .receive i s request => if i ∈ sys.nodes then w.receive i s request else w
  | .handle n => sys.handle w n
  | .answer n => w.answer n

def runs (acts : List ReadAct) : ReadNet := Machine.run sys.step sys.init acts

/-! ## What must hold of a step -/

/-- Files are handed on whole.  A node takes a file only with every write that was
    acknowledged or still may be.  A write is committed while no other node has the file.
    Replication and recovery take no writes from a file that a node has, or that a query is
    about to run on.  A query for the current state that is run without a look at the mode
    is run where the node has the file. -/
def HandsOnWhole (a : ReadAct) : Prop :=
  (∀ i ∈ sys.nodes, ∀ x ∈ w.owed, (sys.step w a).modes i x.1 = .led →
    w.modes i x.1 = .led ∨ x.2 ∈ w.files i x.1) ∧
  match a with
  | .write i s => ∀ j ∈ sys.nodes, j ≠ i → w.modes j s = .followed
  | .rewrite i s file =>
    (w.modes i s = .led ∨ ∃ q ∈ w.pending, q.running ∧ q.node = i ∧ q.shard = s) →
      ∀ k ∈ w.files i s, k ∈ file
  | .handle n => ∀ q ∈ w.pending[n]?, q.request.consistency = .linearizable →
      (w.view q.node q.shard (sys.router q.node)).bypasses q.request →
      w.modes q.node q.shard = .led
  | _ => True

instance (a : ReadAct) : Decidable (sys.HandsOnWhole w a) := by
  unfold HandsOnWhole
  cases a <;> infer_instance

/-! ## The invariant -/

/-- A node that has a file has every write that was acknowledged or still may be; a query
    for the current state that is about to run has what it is owed in the file it will run
    on. -/
structure Inv : Prop where
  led : ∀ i ∈ sys.nodes, ∀ x ∈ w.owed, w.modes i x.1 = .led → x.2 ∈ w.files i x.1
  node : ∀ q ∈ w.pending, q.node ∈ sys.nodes
  before : ∀ q ∈ w.pending, ∀ k ∈ q.before, (q.shard, k) ∈ w.acked
  running : ∀ q ∈ w.pending, q.running → q.request.consistency = .linearizable →
    ∀ k ∈ q.before, k ∈ w.files q.node q.shard
  answers : ∀ a ∈ w.answers, a.Current

/-- A step that moves modes and gates only, or forgets acknowledgements to come. -/
structure Relabels (w w' : ReadNet) : Prop where
  files : w'.files = w.files
  acked : w'.acked = w.acked
  waiting : w'.waiting ⊆ w.waiting
  pending : w'.pending = w.pending
  answers : w'.answers = w.answers

section Steps

variable {sys} {w w' : ReadNet}

theorem mem_owed {w : ReadNet} {x : ShardId × Nat} :
    x ∈ w.owed ↔ x ∈ w.acked ∨ ∃ i, (i, x) ∈ w.waiting := by
  simp [ReadNet.owed]

theorem Relabels.owed (hw : Relabels w w') : w'.owed ⊆ w.owed := by
  intro x hx
  rw [mem_owed, hw.acked] at hx
  exact mem_owed.2 (hx.imp_right fun ⟨i, hi⟩ => ⟨i, hw.waiting hi⟩)

theorem relabels_handover (i : NodeId) (ok : Bool) (handed : Nat) :
    Relabels w (sys.handover w i ok handed) := by
  unfold ReadSystem.handover
  split
  · exact ⟨rfl, rfl, List.Subset.refl _, rfl, rfl⟩
  · split_ifs <;> exact ⟨rfl, rfl, List.Subset.refl _, rfl, rfl⟩
  · exact ⟨rfl, rfl, List.Subset.refl _, rfl, rfl⟩

theorem relabels_placed (a : GateAct) : Relabels w (sys.placed w a) := by
  unfold ReadSystem.placed
  split <;> exact ⟨rfl, rfl, List.Subset.refl _, rfl, rfl⟩

section

variable (h : sys.Inv w)

include h

theorem Inv.relabel (hw : Relabels w w') (hok : ∀ i ∈ sys.nodes, ∀ x ∈ w.owed,
    w'.modes i x.1 = .led → w.modes i x.1 = .led ∨ x.2 ∈ w.files i x.1) : sys.Inv w' where
  led i hi x hx hled := by
    rw [hw.files]
    exact (hok i hi x (hw.owed hx) hled).elim (h.led i hi x (hw.owed hx)) id
  node := hw.pending ▸ h.node
  before := hw.pending ▸ hw.acked ▸ h.before
  running := hw.pending ▸ hw.files ▸ h.running
  answers := hw.answers ▸ h.answers

/-- A file may lose writes only where no node has it and no query is about to run. -/
theorem Inv.setFile {i : NodeId} {s : ShardId} {file : List Nat}
    (hfile : (w.modes i s = .led ∨ ∃ q ∈ w.pending, q.running ∧ q.node = i ∧ q.shard = s) →
      ∀ k ∈ w.files i s, k ∈ file) : sys.Inv (w.setFile i s file) := by
  have hkeeps : ∀ j s' k, (w.modes j s' = .led ∨
      ∃ q ∈ w.pending, q.running ∧ q.node = j ∧ q.shard = s') →
      k ∈ w.files j s' → k ∈ (w.setFile i s file).files j s' := by
    intro j s' k hused hk
    rw [ReadNet.setFile_files]
    split_ifs with hat
    · obtain ⟨rfl, rfl⟩ := hat
      exact hfile hused k hk
    · exact hk
  refine ⟨fun j hj x hx hled => ?_, h.node, h.before, fun q hq hrun hlin k hk => ?_, h.answers⟩
  · exact hkeeps j x.1 x.2 (.inl hled) (h.led j hj x hx hled)
  · exact hkeeps _ _ _ (.inr ⟨q, hq, hrun, rfl, rfl⟩) (h.running q hq hrun hlin k hk)

theorem Inv.write {i : NodeId} {s : ShardId}
    (halone : ∀ j ∈ sys.nodes, j ≠ i → w.modes j s = .followed) : sys.Inv (w.write i s) := by
  unfold ReadNet.write
  split_ifs
  · let file := w.files i s ++ [w.nextWrite]
    have hnext : sys.Inv (w.setFile i s file) :=
      h.setFile fun _ k hk => List.mem_append_left _ hk
    refine ⟨fun j hj x hx hled => ?_, hnext.node, hnext.before, hnext.running, hnext.answers⟩
    rcases mem_owed.1 hx with hx | ⟨l, hx⟩
    · exact hnext.led j hj x (mem_owed.2 (.inl hx)) hled
    · rcases List.mem_cons.1 hx with heq | hx
      · -- only the writer has the file
        obtain ⟨-, rfl⟩ := Prod.mk.inj heq
        by_cases hji : j = i
        · show w.nextWrite ∈ (w.setFile i s file).files j s
          rw [ReadNet.setFile_files, if_pos ⟨hji, rfl⟩]
          exact List.mem_append_right _ (List.mem_singleton_self _)
        · cases (halone j hj hji).symm.trans hled
      · exact hnext.led j hj x (mem_owed.2 (.inr ⟨l, hx⟩)) hled
  · exact h

theorem Inv.giveUp (i : NodeId) (s : ShardId) (k : Nat) : sys.Inv (w.giveUp i s k) :=
  h.relabel ⟨rfl, rfl, List.erase_subset, rfl, rfl⟩ fun _ _ _ _ hled => .inl hled

/-- A write that is acknowledged was owed before. -/
theorem Inv.ack (i : NodeId) (s : ShardId) (k : Nat) : sys.Inv (w.ack i s k) := by
  unfold ReadNet.ack
  split_ifs with hwaits
  · have hgone := h.giveUp i s k
    refine ⟨fun j hj x hx hled => ?_, h.node, fun q hq k' hk' => ?_, h.running, h.answers⟩
    · rcases mem_owed.1 hx with hx | hx
      · rcases List.mem_cons.1 hx with rfl | hx
        · exact h.led j hj _ (mem_owed.2 (.inr ⟨i, hwaits⟩)) hled
        · exact h.led j hj x (mem_owed.2 (.inl hx)) hled
      · exact hgone.led j hj x (mem_owed.2 (.inr hx)) hled
    · exact List.mem_cons_of_mem _ (h.before q hq k' hk')
  · exact h

theorem Inv.receive {i : NodeId} (hi : i ∈ sys.nodes) (s : ShardId)
    (request : QueryRequest) : sys.Inv (w.receive i s request) := by
  have hold : ∀ q ∈ (w.receive i s request).pending,
      q ∈ w.pending ∨ q = ⟨i, s, request, w.ackedOf s, false⟩ :=
    fun q hq => (List.mem_append.1 hq).imp_right List.mem_singleton.1
  refine ⟨h.led, fun q hq => ?_, fun q hq => ?_, fun q hq => ?_, h.answers⟩
  · rcases hold q hq with hq | rfl
    · exact h.node q hq
    · exact hi
  · rcases hold q hq with hq | rfl
    · exact h.before q hq
    · intro k hk
      obtain ⟨x, hx, rfl⟩ := List.mem_map.1 hk
      obtain ⟨hmem, hs⟩ := List.mem_filter.1 hx
      exact of_decide_eq_true hs ▸ hmem
  · rcases hold q hq with hq | rfl
    · exact h.running q hq
    · exact fun hrun => by cases hrun

/-- A query that is handled here was made to be, or the node has the file; either way the
    node has every acknowledged write. -/
theorem Inv.handle {n : Nat} (hok : ∀ q ∈ w.pending[n]?,
    q.request.consistency = .linearizable →
      (w.view q.node q.shard (sys.router q.node)).bypasses q.request →
      w.modes q.node q.shard = .led) : sys.Inv (sys.handle w n) := by
  unfold ReadSystem.handle
  split
  · next q hq =>
      have hmem : q ∈ w.pending := List.mem_of_getElem? hq
      split
      · next hlocal =>
          have hruns : q.request.consistency = .linearizable →
              ∀ k ∈ q.before, k ∈ w.files q.node q.shard := by
            intro hlin k hk
            have hled : w.modes q.node q.shard = .led :=
              (ShardView.led_or_bypasses hlocal hlin).elim id (hok q hq hlin)
            exact h.led _ (h.node q hmem) _ (mem_owed.2 (.inl (h.before q hmem k hk))) hled
          refine ⟨h.led, fun q' hq' => ?_, fun q' hq' => ?_, fun q' hq' => ?_, h.answers⟩ <;>
            rcases List.mem_or_eq_of_mem_set hq' with hq' | rfl
          · exact h.node q' hq'
          · exact h.node q hmem
          · exact h.before q' hq'
          · exact h.before q hmem
          · exact h.running q' hq'
          · exact fun _ => hruns
      · exact ⟨h.led, fun q' hq' => h.node q' (List.mem_of_mem_eraseIdx hq'),
          fun q' hq' => h.before q' (List.mem_of_mem_eraseIdx hq'),
          fun q' hq' => h.running q' (List.mem_of_mem_eraseIdx hq'), h.answers⟩
  · exact h

theorem Inv.answer (n : Nat) : sys.Inv (w.answer n) := by
  unfold ReadNet.answer
  split
  · next q hq =>
      split_ifs with hrun
      · refine ⟨h.led, fun q' hq' => h.node q' (List.mem_of_mem_eraseIdx hq'),
          fun q' hq' => h.before q' (List.mem_of_mem_eraseIdx hq'),
          fun q' hq' => h.running q' (List.mem_of_mem_eraseIdx hq'), fun a ha => ?_⟩
        rcases List.mem_cons.1 ha with rfl | ha
        · exact fun hlin => h.running q (List.mem_of_getElem? hq) hrun hlin
        · exact h.answers a ha
      · exact h
  · exact h

theorem Inv.step {a : ReadAct} (hok : sys.HandsOnWhole w a) : sys.Inv (sys.step w a) := by
  obtain ⟨htakes, hok⟩ := hok
  -- a step that only moves modes is what the first condition speaks of
  have hmoves : Relabels w (sys.step w a) → sys.Inv (sys.step w a) :=
    fun hw => h.relabel hw htakes
  have hsame : Relabels w w := ⟨rfl, rfl, List.Subset.refl _, rfl, rfl⟩
  unfold ReadSystem.step at hmoves ⊢
  split at hmoves
  · refine hmoves ?_
    split_ifs
    · exact relabels_handover _ _ _
    · exact hsame
  · refine hmoves ?_
    split_ifs
    · exact ⟨rfl, rfl, List.filter_subset_self _, rfl, rfl⟩
    · exact hsame
  · refine hmoves ?_
    split_ifs
    · exact relabels_placed _
    · exact hsame
  · refine hmoves ?_
    split_ifs
    · exact relabels_handover _ _ _
    · exact hsame
  · exact hmoves ⟨rfl, rfl, List.Subset.refl _, rfl, rfl⟩
  · split_ifs
    · exact h.write hok
    · exact h
  · exact h.ack _ _ _
  · exact h.giveUp _ _ _
  · exact h.setFile hok
  · exact hmoves ⟨rfl, rfl, List.Subset.refl _, rfl, rfl⟩
  · split_ifs with hi
    · exact h.receive hi _ _
    · exact h
  · exact h.handle hok
  · exact h.answer _

end

end Steps

theorem inv_init : sys.Inv sys.init where
  led _ _ _ h := (List.not_mem_nil h).elim
  node _ h := (List.not_mem_nil h).elim
  before _ h := (List.not_mem_nil h).elim
  running _ h := (List.not_mem_nil h).elim
  answers _ h := (List.not_mem_nil h).elim

def threeReaders : ReadSystem where
  gate := GateSystem.threeHosts
  nodes := {1, 2, 3}
  router _ := true

/-- Nodes 2 and 3 follow from the start. -/
def started : List ReadAct :=
  [.setMode 2 0 .followed, .setMode 3 0 .followed]

/-- Node 1 leads term 1, has both shards and acknowledges write 0 on shard 0. -/
def firstAcked : List ReadAct :=
  firstElection.map (fun a => .gate (.election a)) ++
    [.gate (.plan 1 1), .write 1 0, .ack 1 0 0]

/-- Node 2 is elected in term 2 by node 3 and takes both shards. -/
def secondTerm : List ReadAct :=
  [.gate (.election (.tick 2 9000000000 {} {})),
   .gate (.election (.recvVoteRequest 3 ⟨2, 2, {}⟩ 9000000000 {} {})),
   .gate (.election (.recvVoteReply 2 3 ⟨2, true, ""⟩ 9000000000 {})),
   .gate (.plan 2 2)]

def queryOnce (i : NodeId) (request : QueryRequest) : List ReadAct :=
  [.receive i 0 request, .handle 0, .answer 0]

/-- Node 1 gives the file up, node 2 has its write and takes over. -/
def handedOn : List ReadAct :=
  started ++ firstAcked ++ queryOnce 1 (.query .linearizable) ++
    [.gate (.stepDown 1 1), .setMode 1 0 .followed, .rewrite 2 0 [0]] ++ secondTerm ++
    [.write 2 0, .ack 2 0 1] ++ queryOnce 2 (.direct .linearizable)

/-- Node 1, cut off, still has the file and answers; so it does once restarted.  A node
    that only follows is sent a direct query.  Node 2 takes over without write 0. -/
def behind : List (List ReadAct) :=
  [firstAcked ++ [.rewrite 2 0 [0]] ++ secondTerm ++ [.write 2 0, .ack 2 0 1] ++
     queryOnce 1 (.query .linearizable),
   firstAcked ++ [.rewrite 2 0 [0]] ++ secondTerm ++ [.write 2 0, .ack 2 0 1] ++
     [.gate (.election (.restart 1 9000000000))] ++ queryOnce 1 (.query .linearizable),
   firstAcked ++ [.setMode 3 0 .followed] ++ queryOnce 3 (.direct .linearizable),
   firstAcked ++ secondTerm ++ queryOnce 2 (.query .linearizable)]

end ReadSystem

end Shardlite.Cluster
