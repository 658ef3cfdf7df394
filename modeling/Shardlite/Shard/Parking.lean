/-
  Shardlite.Shard.Parking

  What a transaction over several shards leaves at the writers.  A participant that
  voted is parked: its connection has the transaction open, and ordinary writes to the
  shard are held until the decision.  The connection lives in a cache that evicts and is
  closed by a quiesce; the decision travels through a queue that may be full.

  Calls of `run_atomic` on several shards are serialised by a lock, so at most one is
  under way.  A call that has returned has left nothing behind, as long as its record
  could be written and its decisions reach shards that are still led and can be carried
  out there.  With the record file failing, `run_atomic` returns without telling anyone;
  a COMMIT that SQLite refuses, as for a deferred constraint, leaves its transaction open
  on a shard that is no longer parked.
-/
import Shardlite.Shard.Atomic
import Shardlite.Shard.Lru

namespace Shardlite.Shard

open Storage Function

/-! ## A writer thread -/

/-- A writer's connection to a shard, with the transaction that is open on it. -/
structure WriterConn where
  txn : Option Nat := none
  deriving DecidableEq, Repr

/-- An ordinary write that waits for its answer. -/
structure PendingWrite where
  id : Nat
  shard : ShardId
  deriving DecidableEq, Repr

/-- A writer thread: its connections, and the shards that await a decision. -/
structure WriterThread where
  lru : Lru WriterConn
  parked : Finset ShardId := ∅
  /-- Writes queued behind a parked shard. -/
  held : ShardId → List PendingWrite := fun _ => []
  /-- The batch in hand. -/
  pending : List PendingWrite := []

/-- What a job meets outside the thread. -/
structure JobEnv where
  /-- The queue takes the job. -/
  admitted : Bool := true
  /-- The shard's files are this node's. -/
  mayOpen : Except Error Unit := .ok ()
  /-- A new connection can be opened. -/
  opens : Except Error Unit := .ok ()
  /-- The write gate. -/
  gate : Except Error Unit := .ok ()
  /-- SQLite takes the statements of a prepare. -/
  accepts : Bool := true
  /-- SQLite's answer to the COMMIT or ROLLBACK of a decision. -/
  finish : Except Error Unit := .ok ()
  /-- Handing the committed frames to the stream. -/
  drain : Except Error Unit := .ok ()

namespace WriterThread

variable (t : WriterThread) (s : ShardId) (env : JobEnv)

def setLru (lru : Lru WriterConn) : WriterThread := { t with lru }

/-- The shard's connection, opened if need be. -/
def ensureShard : Except Error WriterConn × WriterThread :=
  match env.mayOpen with
  | .error e => (.error e, t)
  | .ok _ =>
    let found := t.lru.getOrOpen s (env.opens.map fun _ => {})
    (found.value, t.setLru found.lru)

def quiesce : WriterThread := t.setLru (t.lru.remove s)

/-- Phase one: apply the statements and leave the transaction open.  `true` is a vote. -/
def prepareShard (tag : Nat) : Except Error Bool × WriterThread :=
  if s ∈ t.parked then
    (.error (.other s!"{shardName s} is already prepared for another transaction"), t)
  else
    match t.ensureShard s env with
    | (.error e, t) => (.error e, t)
    | (.ok conn, t) =>
      match env.gate with
      | .error e => (.error e, t)
      | .ok _ =>
        if conn.txn.isSome then
          (.error (.other "cannot start a transaction within a transaction"), t)
        else if env.accepts then
          (.ok true, { t with lru := t.lru.set s ⟨some tag⟩, parked := insert s t.parked })
        else (.ok false, t)

/-- Phase two.  The shard is unparked before anything can fail. -/
def decideShard (commit : Bool) : Except Error Unit × WriterThread :=
  if s ∉ t.parked then (.ok (), t)
  else
    match ({ t with parked := t.parked.erase s } : WriterThread).ensureShard s env with
    | (.error e, t) => (.error e, t)
    | (.ok conn, t) =>
      let commit := commit && env.gate.isOk
      if conn.txn.isNone then
        let verb := if commit then "commit" else "rollback"
        (.error (.other s!"cannot {verb} - no transaction is active"), t)
      else
        match env.finish with
        -- the transaction stays open
        | .error e => (.error e, t)
        | .ok _ => (if commit then env.drain else .ok (), t.setLru (t.lru.set s {}))

/-- Every write of a batch is answered, whatever becomes of it. -/
def applyShardBatch : WriterThread := (t.ensureShard s env).2

/-- Run the writes that queued behind a shard; the second part is answered. -/
def releaseHeld : WriterThread × List PendingWrite :=
  match t.held s with
  | [] => (t, [])
  | group =>
    (({ t with held := update t.held s [] } : WriterThread).applyShardBatch s env, group)

/-- One shard's part of the batch in hand: held if the shard is parked. -/
def handleGroup (group : List PendingWrite) : WriterThread × List PendingWrite :=
  if s ∈ t.parked then ({ t with held := update t.held s (t.held s ++ group) }, [])
  else (t.applyShardBatch s env, group)

end WriterThread

/-! ## The node -/

/-- The writers of a node and the transaction under way. -/
structure ParkingNode where
  threads : Nat → WriterThread
  /-- The call of `run_atomic` on several shards that is under way. -/
  call : Option InFlight := none
  nextTag : Nat := 0
  answered : List PendingWrite := []
  /-- The transaction that parked a shard last. -/
  parkedBy : ShardId → Nat := fun _ => 0
  /-- Every write that was held, with the transaction it was held behind. -/
  heldBehind : List (Nat × PendingWrite) := []

/-- The jobs of writer threads and the steps of `run_atomic`. -/
inductive ParkingAct where
  | submit (write : PendingWrite) (admitted : Bool)
  /-- The shard's part of its thread's batch is handled. -/
  | batch (shard : ShardId) (env : JobEnv)
  /-- Any job that only looks a shard's connection up. -/
  | ensureOpen (shard : ShardId) (env : JobEnv)
  | quiesce (shard : ShardId)
  | start (participants : Participants) (ddl : Bool)
  | prepareNext (env : JobEnv)
  | putRecord (ok : Bool)
  | commitNext (env : JobEnv)
  | removeRecord
  | abortNext (env : JobEnv)

namespace ParkingNode

variable (threadOf : ShardId → Nat) (w : ParkingNode) (f : InFlight)

/-- The thread a shard is pinned to. -/
def thread (s : ShardId) : WriterThread := w.threads (threadOf s)

def setThread (s : ShardId) (t : WriterThread) : ParkingNode :=
  { w with threads := update w.threads (threadOf s) t }

def stage (stage : TxnStage) : ParkingNode :=
  { w with call := some { f with stage } }

def returned : ParkingNode := { w with call := none }

def answer (writes : List PendingWrite) : ParkingNode :=
  { w with answered := writes ++ w.answered }

def submit (write : PendingWrite) (admitted : Bool) : ParkingNode :=
  if admitted then
    let t := w.thread threadOf write.shard
    w.setThread threadOf write.shard { t with pending := t.pending ++ [write] }
  else w.answer [write]

def batch (s : ShardId) (env : JobEnv) : ParkingNode :=
  let t := w.thread threadOf s
  let group := t.pending.filter (·.shard = s)
  let (t', answered) :=
    ({ t with pending := t.pending.filter (·.shard ≠ s) } : WriterThread).handleGroup s env group
  { (w.setThread threadOf s t').answer answered with
    heldBehind := (if s ∈ t.parked then group.map (w.parkedBy s, ·) else []) ++ w.heldBehind }

/-- One decision to one shard, and the writes held behind it. -/
def decideAndRelease (s : ShardId) (commit : Bool) (env : JobEnv) : Except Error Unit × ParkingNode :=
  let (result, t) := (w.thread threadOf s).decideShard s env commit
  let (t, released) := t.releaseHeld s env
  (result, (w.setThread threadOf s t).answer released)

/-- `WriterFleet::decide`: a full queue refuses. -/
def decide (s : ShardId) (commit : Bool) (env : JobEnv) : Except Error Unit × ParkingNode :=
  if env.admitted then w.decideAndRelease threadOf s commit env else (.error .writerBusy, w)

/-- `run_atomic` up to its first prepare; fewer than two participants need no parking. -/
def start (ps : Participants) (ddl : Bool) : ParkingNode :=
  match normalized ps with
  | p :: q :: rest =>
    { w with
      call := some ⟨w.nextTag, w.nextTag, p :: q :: rest, ddl, .preparing (p :: q :: rest)⟩
      nextTag := w.nextTag + 1 }
  | _ => w

def prepareNext (env : JobEnv) : ParkingNode :=
  match f.stage with
  | .preparing [] => w.stage f .recording
  | .preparing ((s, _) :: todo) =>
    if env.admitted then
      match (w.thread threadOf s).prepareShard s env f.tag with
      | (.ok true, t) =>
        { (w.setThread threadOf s t).stage f (.preparing todo) with
          parkedBy := update w.parkedBy s f.tag }
      | (_, t) => (w.setThread threadOf s t).stage f (.aborting f.shards)
    else w.stage f (.aborting f.shards)
  | _ => w

/-- A record that cannot be written ends the call. -/
def putRecord (ok : Bool) : ParkingNode :=
  match f.stage with
  | .recording => if ok then w.stage f (.committing f.shards false) else w.returned
  | _ => w

def commitNext (env : JobEnv) : ParkingNode :=
  match f.stage with
  | .committing [] failed => if failed then w.returned else w.stage f .removing
  | .committing (s :: todo) failed =>
    match w.decide threadOf s true env with
    | (.ok _, w) => w.stage f (.committing todo failed)
    | (.error _, w) => w.stage f (.committing todo true)
  | _ => w

/-- Whether or not the record file goes, the call returns. -/
def removeRecord : ParkingNode :=
  match f.stage with
  | .removing => w.returned
  | _ => w

def abortNext (env : JobEnv) : ParkingNode :=
  match f.stage with
  | .aborting [] => w.returned
  | .aborting (s :: todo) => (w.decide threadOf s false env).2.stage f (.aborting todo)
  | _ => w

/-- One job or step; a step needs the call it belongs to. -/
def step (a : ParkingAct) : ParkingNode :=
  match a, w.call with
  | .submit write admitted, _ => w.submit threadOf write admitted
  | .batch s env, _ => w.batch threadOf s env
  | .ensureOpen s env, _ => w.setThread threadOf s ((w.thread threadOf s).ensureShard s env).2
  | .quiesce s, _ => w.setThread threadOf s ((w.thread threadOf s).quiesce s)
  | .start ps ddl, none => w.start ps ddl
  | .prepareNext env, some f => w.prepareNext threadOf f env
  | .putRecord ok, some f => w.putRecord f ok
  | .commitNext env, some f => w.commitNext threadOf f env
  | .removeRecord, some f => w.removeRecord f
  | .abortNext env, some f => w.abortNext threadOf f env
  | _, _ => w

/-- Writers with room for `capacity` connections each. -/
def init (capacity : Nat) : ParkingNode where
  threads _ := { lru := { capacity } }

def runs (capacity : Nat) (acts : List ParkingAct) : ParkingNode :=
  Machine.run (step threadOf) (init capacity) acts

end ParkingNode

/-! ## What a job does to the other shards of its thread -/

namespace Lru

variable {V : Type} {l : Lru V} {id : ShardId} {opened : Except Error V}

theorem peek_of_getOrOpen_error {e : Error} (h : (l.getOrOpen id opened).value = .error e) :
    (l.getOrOpen id opened).lru.peek id = none := by
  cases hpeek : (l.getOrOpen id opened).lru.peek id with
  | none => rfl
  | some v =>
    rcases of_peek_getOrOpen hpeek with hold | ⟨-, rfl⟩
    · rw [(getOrOpen_of_peek hold).1] at h
      cases h
    · obtain ⟨v', hv'⟩ : ∃ v', (l.getOrOpen id (.ok v)).value = .ok v' := exists_getOrOpen_ok
      rw [hv'] at h
      cases h

end Lru

namespace WriterThread

variable {t t' : WriterThread} {s : ShardId} {env : JobEnv}

/-- A job for `s` leaves the others parked and held as they were, and opens no
    transaction of theirs. -/
structure Touches (s : ShardId) (t t' : WriterThread) : Prop where
  parked : ∀ s' ≠ s, (s' ∈ t'.parked ↔ s' ∈ t.parked)
  held : ∀ s' ≠ s, t'.held s' = t.held s'
  conns : ∀ s' ≠ s, ∀ c, t'.lru.peek s' = some c → t.lru.peek s' = some c ∨ c.txn = none

variable {conn : WriterConn}

theorem Touches.refl (s : ShardId) (t : WriterThread) : Touches s t t :=
  ⟨fun _ _ => Iff.rfl, fun _ _ => rfl, fun _ _ _ => .inl⟩

theorem Touches.trans {t'' : WriterThread} (h : Touches s t t') (h' : Touches s t' t'') :
    Touches s t t'' := by
  refine ⟨fun s' hs => (h'.parked s' hs).trans (h.parked s' hs),
    fun s' hs => (h'.held s' hs).trans (h.held s' hs), fun s' hs c hc => ?_⟩
  rcases h'.conns s' hs c hc with hc | hc
  · exact h.conns s' hs c hc
  · exact .inr hc

/-- What a lookup of a connection does: connections go or come without a transaction. -/
theorem ensureShard_spec (t : WriterThread) (s : ShardId) (env : JobEnv) :
    (t.ensureShard s env).2.parked = t.parked ∧ (t.ensureShard s env).2.held = t.held ∧
      ∀ s' c, (t.ensureShard s env).2.lru.peek s' = some c →
        t.lru.peek s' = some c ∨ c.txn = none := by
  unfold ensureShard
  cases env.mayOpen with
  | error e => exact ⟨rfl, rfl, fun _ _ => .inl⟩
  | ok _ =>
    refine ⟨rfl, rfl, fun s' c hc => (Lru.of_peek_getOrOpen hc).imp_right ?_⟩
    rintro ⟨-, hnew⟩
    cases hopens : env.opens with
    | error e =>
      rw [hopens] at hnew
      cases hnew
    | ok _ =>
      rw [hopens] at hnew
      rw [← Except.ok.inj hnew]

theorem touches_ensureShard (t : WriterThread) (s : ShardId) (env : JobEnv) :
    Touches s t (t.ensureShard s env).2 := by
  obtain ⟨hparked, hheld, hconns⟩ := ensureShard_spec t s env
  exact ⟨fun _ _ => by rw [hparked], fun _ _ => by rw [hheld], fun s' _ => hconns s'⟩

theorem peek_ensureShard (h : (t.ensureShard s env).1 = .ok conn) :
    (t.ensureShard s env).2.lru.peek s = some conn := by
  unfold ensureShard at h ⊢
  cases hmay : env.mayOpen with
  | error e =>
    rw [hmay] at h
    cases h
  | ok _ =>
    rw [hmay] at h
    exact Lru.peek_getOrOpen_self h

theorem touches_set : Touches s t (t.setLru (t.lru.set s conn)) := by
  refine ⟨fun _ _ => Iff.rfl, fun _ _ => rfl, fun s' hs c hc => ?_⟩
  rcases Lru.of_peek_set hc with hc | ⟨heq, -⟩
  · exact .inl hc
  · exact absurd heq hs

/-! ## One shard -/

/-- A parked shard is awaited by a call; a transaction is open on it only while it is
    parked, and it is the one that parked it; writes are held only then. -/
structure ShardOk (t : WriterThread) (s : ShardId) (by' : Nat) (awaited : Prop) : Prop where
  parked : s ∈ t.parked → awaited
  opened : ∀ c tag, t.lru.peek s = some c → c.txn = some tag → s ∈ t.parked ∧ by' = tag
  held : t.held s ≠ [] → s ∈ t.parked

variable {by' : Nat} {awaited : Prop}

theorem ShardOk.touch {awaited' : Prop} {s' : ShardId}
    (h : ShardOk t s' by' awaited) (ht : Touches s t t') (hne : s' ≠ s)
    (haw : s' ∈ t.parked → awaited → awaited') : ShardOk t' s' by' awaited' := by
  refine ⟨fun hp => ?_, fun c tag hc htag => ?_, fun hheld => ?_⟩
  · rw [ht.parked s' hne] at hp
    exact haw hp (h.parked hp)
  · rcases ht.conns s' hne c hc with hc | hnone
    · rw [ht.parked s' hne]
      exact h.opened c tag hc htag
    · rw [hnone] at htag
      cases htag
  · rw [ht.parked s' hne]
    rw [ht.held s' hne] at hheld
    exact h.held hheld

/-- Connections of the shard go, or come without a transaction. -/
theorem ShardOk.calm (h : ShardOk t s by' awaited)
    (hparked : t'.parked = t.parked) (hheld : t'.held s = t.held s)
    (hconns : ∀ c, t'.lru.peek s = some c → t.lru.peek s = some c ∨ c.txn = none) :
    ShardOk t' s by' awaited := by
  refine ⟨fun hp => h.parked (hparked ▸ hp), fun c tag hc htag => ?_, fun hh => ?_⟩
  · rw [hparked]
    rcases hconns c hc with hc | hnone
    · exact h.opened c tag hc htag
    · rw [hnone] at htag
      cases htag
  · rw [hparked]
    rw [hheld] at hh
    exact h.held hh

/-- A shard that is not parked, has no transaction open and holds nothing. -/
theorem ShardOk.free (hparked : s ∉ t.parked)
    (hconns : ∀ c, t.lru.peek s = some c → c.txn = none) (hheld : t.held s = []) :
    ShardOk t s by' awaited := by
  refine ⟨fun hp => absurd hp hparked, fun c tag hc htag => ?_, fun hh => absurd hheld hh⟩
  rw [hconns c hc] at htag
  cases htag

/-- After a decision on a shard that may be opened, and that SQLite carries out,
    nothing of it is parked or open. -/
theorem decideShard_spec (h : ShardOk t s by' awaited)
    (hmay : s ∈ t.parked → env.mayOpen.isOk = true ∧ env.finish.isOk = true) (commit : Bool) :
    Touches s t (t.decideShard s env commit).2 ∧ s ∉ (t.decideShard s env commit).2.parked ∧
      (∀ c, (t.decideShard s env commit).2.lru.peek s = some c → c.txn = none) ∧
      (t.decideShard s env commit).2.held = t.held := by
  unfold decideShard
  by_cases hp : s ∉ t.parked
  · rw [if_pos hp]
    refine ⟨Touches.refl s t, hp, fun c hc => ?_, rfl⟩
    cases htxn : c.txn with
    | none => rfl
    | some tag => exact absurd (h.opened c tag hc htxn).1 hp
  · rw [if_neg hp]
    obtain ⟨hmay, hfinish⟩ := hmay (not_not.1 hp)
    set t₀ : WriterThread := { t with parked := t.parked.erase s } with ht₀
    have htouch : Touches s t t₀ :=
      ⟨fun s' hs => by rw [ht₀]; exact Finset.mem_erase.trans (and_iff_right hs), fun _ _ => rfl,
        fun _ _ _ => .inl⟩
    obtain ⟨hparked, hheld, -⟩ := ensureShard_spec t₀ s env
    have htouch := htouch.trans (touches_ensureShard t₀ s env)
    have hout : s ∉ (t₀.ensureShard s env).2.parked := by
      rw [hparked]
      exact Finset.notMem_erase s t.parked
    have hself : ∀ conn, (t₀.ensureShard s env).1 = .ok conn →
        (t₀.ensureShard s env).2.lru.peek s = some conn := fun conn => peek_ensureShard
    have hgone : ∀ e, (t₀.ensureShard s env).1 = .error e →
        (t₀.ensureShard s env).2.lru.peek s = none := by
      intro e he
      unfold ensureShard at he ⊢
      cases hm : env.mayOpen with
      | error e' =>
        rw [hm] at hmay
        cases hmay
      | ok _ =>
        rw [hm] at he
        exact Lru.peek_of_getOrOpen_error he
    cases hens : t₀.ensureShard s env with
    | mk value t₁ =>
      rw [hens] at hheld htouch hout hself hgone
      cases value with
      | error e =>
        refine ⟨htouch, hout, fun c hc => ?_, hheld⟩
        rw [hgone e rfl] at hc
        cases hc
      | ok conn =>
        dsimp only
        by_cases hnone : conn.txn.isNone = true
        · rw [if_pos hnone]
          refine ⟨htouch, hout, fun c hc => ?_, hheld⟩
          cases (hself conn rfl).symm.trans hc
          exact Option.isNone_iff_eq_none.1 hnone
        · rw [if_neg hnone]
          cases hfin : env.finish with
          | error e =>
            rw [hfin] at hfinish
            cases hfinish
          | ok _ =>
            refine ⟨htouch.trans touches_set, hout, fun c hc => ?_, hheld⟩
            have hc : (t₁.lru.set s {}).peek s = some c := hc
            rw [Lru.peek_set s (by rw [hself conn rfl]; rfl), if_pos rfl] at hc
            rw [← Option.some.inj hc]

/-- The held writes are answered, and nothing else of the shard changes but its
    connection. -/
theorem releaseHeld_spec (t : WriterThread) (s : ShardId) (env : JobEnv) :
    Touches s t (t.releaseHeld s env).1 ∧ (t.releaseHeld s env).1.parked = t.parked ∧
      (∀ c, (t.releaseHeld s env).1.lru.peek s = some c →
        t.lru.peek s = some c ∨ c.txn = none) ∧
      (t.releaseHeld s env).1.held s = [] ∧ (t.releaseHeld s env).2 = t.held s := by
  unfold releaseHeld
  split
  · next hnil => exact ⟨Touches.refl s t, rfl, fun _ => .inl, hnil, hnil.symm⟩
  · set t₀ : WriterThread := { t with held := update t.held s [] } with ht₀
    have htouch : Touches s t t₀ :=
      ⟨fun _ _ => Iff.rfl, fun s' hs => update_of_ne hs _ _, fun _ _ _ => .inl⟩
    obtain ⟨hparked, hheld, hconns⟩ := ensureShard_spec t₀ s env
    refine ⟨htouch.trans (touches_ensureShard t₀ s env), hparked, hconns s, ?_, rfl⟩
    show (t₀.ensureShard s env).2.held s = []
    rw [hheld]
    exact update_self ..

/-- A prepare of `s` that is not a vote leaves the shard as it was but for its
    connection; a vote parks it with the transaction open. -/
theorem prepareShard_spec (t : WriterThread) (s : ShardId) (env : JobEnv) (tag : Nat) :
    Touches s t (t.prepareShard s env tag).2 ∧ (t.prepareShard s env tag).2.held = t.held ∧
      (((t.prepareShard s env tag).1 ≠ .ok true ∧ (t.prepareShard s env tag).2.parked = t.parked ∧
        ∀ c, (t.prepareShard s env tag).2.lru.peek s = some c →
          t.lru.peek s = some c ∨ c.txn = none) ∨
        (s ∉ t.parked ∧ (t.prepareShard s env tag).1 = .ok true ∧
          s ∈ (t.prepareShard s env tag).2.parked ∧
          (t.prepareShard s env tag).2.lru.peek s = some ⟨some tag⟩)) := by
  unfold prepareShard
  by_cases hp : s ∈ t.parked
  · rw [if_pos hp]
    exact ⟨Touches.refl s t, rfl, .inl ⟨nofun, rfl, fun _ => .inl⟩⟩
  · rw [if_neg hp]
    obtain ⟨hparked, hheld, hconns⟩ := ensureShard_spec t s env
    have htouch := touches_ensureShard t s env
    have hself : ∀ conn, (t.ensureShard s env).1 = .ok conn →
        (t.ensureShard s env).2.lru.peek s = some conn := fun conn => peek_ensureShard
    cases hens : t.ensureShard s env with
    | mk value t₁ =>
      rw [hens] at hheld hparked hconns htouch hself
      cases value with
      | error e => exact ⟨htouch, hheld, .inl ⟨nofun, hparked, hconns s⟩⟩
      | ok conn =>
        cases env.gate with
        | error e => exact ⟨htouch, hheld, .inl ⟨nofun, hparked, hconns s⟩⟩
        | ok _ =>
          dsimp only
          split_ifs with hsome hacc
          · exact ⟨htouch, hheld, .inl ⟨nofun, hparked, hconns s⟩⟩
          · refine ⟨?_, hheld, .inr ⟨hp, rfl, Finset.mem_insert_self _ _, ?_⟩⟩
            · refine htouch.trans ⟨fun s' hs => ?_, fun _ _ => rfl, ?_⟩
              · exact Finset.mem_insert.trans (or_iff_right hs)
              · exact touches_set.conns
            · show (t₁.lru.set s ⟨some tag⟩).peek s = _
              rw [Lru.peek_set s (by rw [hself conn rfl]; rfl), if_pos rfl]
          · exact ⟨htouch, hheld, .inl ⟨nofun, hparked, hconns s⟩⟩

end WriterThread

/-! ## The node's invariant -/

namespace ParkingNode

open WriterThread (Touches ShardOk)

/-- The shards that the call has yet to decide, if they are parked. -/
def undecided (f : InFlight) : List ShardId :=
  match f.stage with
  | .preparing _ => f.shards
  | .recording => f.shards
  | .committing todo _ => todo
  | .removing => []
  | .aborting todo => todo

/-- The call under way will decide the shard, which it parked. -/
def Awaits (w : ParkingNode) (s : ShardId) : Prop :=
  ∃ f, w.call = some f ∧ s ∈ undecided f ∧ w.parkedBy s = f.tag

/-- A write that was held is answered, or still held behind the same transaction. -/
def Waits (threadOf : ShardId → Nat) (w : ParkingNode) (x : Nat × PendingWrite) : Prop :=
  x.2 ∈ w.answered ∨
    x.2 ∈ (w.thread threadOf x.2.shard).held x.2.shard ∧ w.parkedBy x.2.shard = x.1

/-- What every step keeps: each shard is in order, and no held write is forgotten. -/
structure Inv (threadOf : ShardId → Nat) (w : ParkingNode) : Prop where
  shard : ∀ s, (w.thread threadOf s).ShardOk s (w.parkedBy s) (w.Awaits s)
  behind : ∀ x ∈ w.heldBehind, w.Waits threadOf x
  todo : ∀ f todo, w.call = some f → f.stage = .preparing todo → ∀ p ∈ todo, p.1 ∈ f.shards

section Steps

variable {threadOf : ShardId → Nat} {w w' : ParkingNode} {s : ShardId} {t : WriterThread}
  {env : JobEnv} {f : InFlight}

theorem Inv.others (h : w.Inv threadOf)
    (hth : w'.threads = update w.threads (threadOf s) t)
    (ht : Touches s (w.thread threadOf s) t) (hby : ∀ s' ≠ s, w'.parkedBy s' = w.parkedBy s')
    (haw : ∀ s' ≠ s, s' ∈ (w.thread threadOf s').parked → w.Awaits s' → w'.Awaits s')
    (hs : t.ShardOk s (w'.parkedBy s) (w'.Awaits s)) :
    ∀ s', (w'.thread threadOf s').ShardOk s' (w'.parkedBy s') (w'.Awaits s') := by
  intro s'
  have hthread : w'.thread threadOf s' =
      if threadOf s' = threadOf s then t else w.thread threadOf s' := by
    rw [thread, hth, update_apply]
    rfl
  by_cases hne : s' = s
  · rw [hthread, hne, if_pos rfl]
    exact hs
  · rw [hthread, hby s' hne]
    split_ifs with hsame
    · refine (h.shard s').touch (s := s) ?_ hne (haw s' hne)
      rw [show w.thread threadOf s' = w.thread threadOf s from congrArg w.threads hsame]
      exact ht
    · exact (h.shard s').touch (Touches.refl s _) hne (haw s' hne)

theorem Waits.others {x : Nat × PendingWrite} (h : w.Waits threadOf x) (hne : x.2.shard ≠ s)
    (hth : w'.threads = update w.threads (threadOf s) t)
    (ht : Touches s (w.thread threadOf s) t) (hby : ∀ s' ≠ s, w'.parkedBy s' = w.parkedBy s')
    (hans : w.answered ⊆ w'.answered) : w'.Waits threadOf x := by
  refine h.imp (fun hin => hans hin) fun ⟨hheld, hpark⟩ => ?_
  rw [hby _ hne]
  refine ⟨?_, hpark⟩
  rw [thread, hth, update_apply]
  split_ifs with hsame
  · rw [ht.held _ hne, show w.thread threadOf s = w.thread threadOf x.2.shard from
      congrArg w.threads hsame.symm]
    exact hheld
  · exact hheld

section

variable (h : w.Inv threadOf)

include h

/-- A job that changes no more of its shard than its connection. -/
theorem Inv.calm (ht : Touches s (w.thread threadOf s) t)
    (hparked : t.parked = (w.thread threadOf s).parked)
    (hheld : t.held = (w.thread threadOf s).held)
    (hconns : ∀ c, t.lru.peek s = some c →
      (w.thread threadOf s).lru.peek s = some c ∨ c.txn = none) :
    (w.setThread threadOf s t).Inv threadOf := by
  refine ⟨h.others rfl ht (fun _ _ => rfl) (fun _ _ _ => id)
    ((h.shard s).calm hparked (congrFun hheld s) hconns), fun x hx => ?_, h.todo⟩
  refine (h.behind x hx).imp_right fun ⟨hin, hby⟩ => ⟨?_, hby⟩
  show x.2 ∈ (update w.threads (threadOf s) t (threadOf x.2.shard)).held x.2.shard
  rw [update_apply]
  split_ifs with hsame
  · rw [hheld, show w.thread threadOf s = w.thread threadOf x.2.shard from
      congrArg w.threads hsame.symm]
    exact hin
  · exact hin

theorem Inv.answer (writes : List PendingWrite) :
    (w.answer writes).Inv threadOf :=
  ⟨h.shard, fun x hx => (h.behind x hx).imp_left fun hin => List.mem_append_right _ hin, h.todo⟩

theorem Inv.submit (write : PendingWrite) (admitted : Bool) :
    (w.submit threadOf write admitted).Inv threadOf := by
  unfold ParkingNode.submit
  split_ifs
  · exact h.calm ⟨fun _ _ => Iff.rfl, fun _ _ => rfl, fun _ _ _ => .inl⟩ rfl rfl fun _ => .inl
  · exact h.answer [write]

theorem Inv.ensureOpen (s : ShardId) (env : JobEnv) :
    (w.setThread threadOf s ((w.thread threadOf s).ensureShard s env).2).Inv threadOf := by
  obtain ⟨hparked, hheld, hconns⟩ := WriterThread.ensureShard_spec (w.thread threadOf s) s env
  exact h.calm (WriterThread.touches_ensureShard _ s env) hparked hheld (hconns s)

theorem Inv.quiesce (s : ShardId) :
    (w.setThread threadOf s ((w.thread threadOf s).quiesce s)).Inv threadOf := by
  have hconns : ∀ s' c, ((w.thread threadOf s).lru.remove s).peek s' = some c →
      (w.thread threadOf s).lru.peek s' = some c := by
    intro s' c hc
    rw [Lru.peek_remove] at hc
    split_ifs at hc
    exact hc
  exact h.calm ⟨fun _ _ => Iff.rfl, fun _ _ => rfl, fun s' _ c hc => .inl (hconns s' c hc)⟩ rfl rfl
    fun c hc => .inl (hconns s c hc)

theorem Inv.batch (s : ShardId) (env : JobEnv) :
    (w.batch threadOf s env).Inv threadOf := by
  unfold ParkingNode.batch WriterThread.handleGroup
  dsimp only
  set t₀ : WriterThread := { w.thread threadOf s with
    pending := (w.thread threadOf s).pending.filter (·.shard ≠ s) } with ht₀
  set group := (w.thread threadOf s).pending.filter (·.shard = s) with hgroup
  have htouch : Touches s (w.thread threadOf s) t₀ :=
    ⟨fun _ _ => Iff.rfl, fun _ _ => rfl, fun _ _ _ => .inl⟩
  by_cases hp : s ∈ (w.thread threadOf s).parked
  · rw [if_pos hp, if_pos hp]
    -- the group joins the writes held behind the shard
    have htouch : Touches s (w.thread threadOf s)
        { t₀ with held := update t₀.held s (t₀.held s ++ group) } :=
      htouch.trans ⟨fun _ _ => Iff.rfl, fun s' hs => update_of_ne hs _ _,
        fun _ _ _ => .inl⟩
    refine ⟨h.others rfl htouch (fun _ _ => rfl) (fun _ _ _ => id)
      ⟨(h.shard s).parked, (h.shard s).opened, fun _ => hp⟩, fun x hx => ?_, h.todo⟩
    rcases List.mem_append.1 hx with hx | hx
    · obtain ⟨p, hpg, rfl⟩ := List.mem_map.1 hx
      have hshard : p.shard = s := of_decide_eq_true (List.mem_filter.1 hpg).2
      refine .inr ⟨?_, congrArg w.parkedBy hshard⟩
      show p ∈ (update w.threads (threadOf s) _ (threadOf p.shard)).held p.shard
      rw [hshard, update_self]
      show p ∈ update t₀.held s _ s
      rw [update_self]
      exact List.mem_append_right _ hpg
    · by_cases hne : x.2.shard = s
      · refine (h.behind x hx).imp_right fun ⟨hin, hby⟩ => ⟨?_, hby⟩
        show x.2 ∈ (update w.threads (threadOf s) _ (threadOf x.2.shard)).held x.2.shard
        rw [hne, update_self]
        show x.2 ∈ update t₀.held s _ s
        rw [update_self]
        exact List.mem_append_left _ (hne ▸ hin)
      · exact (h.behind x hx).others hne rfl htouch (fun _ _ => rfl) (List.Subset.refl _)
  · rw [if_neg hp, if_neg hp]
    obtain ⟨hparked, hheld, hconns⟩ := WriterThread.ensureShard_spec t₀ s env
    exact (h.calm (htouch.trans (WriterThread.touches_ensureShard t₀ s env)) hparked hheld
      (hconns s)).answer group

end

/-! ## The call -/

section

variable (h : w.Inv threadOf)

include h

/-- The call turns to another stage and still awaits what is parked. -/
theorem Inv.stage (hcall : w.call = some f) {stage : TxnStage}
    (haw : ∀ s, s ∈ (w.thread threadOf s).parked → s ∈ undecided f →
      s ∈ undecided { f with stage })
    (htodo : ∀ todo, stage = .preparing todo → ∀ p ∈ todo, p.1 ∈ f.shards) :
    (w.stage f stage).Inv threadOf := by
  refine ⟨fun s => ⟨fun hp => ?_, (h.shard s).opened, (h.shard s).held⟩, h.behind, ?_⟩
  · obtain ⟨f', hf', hin, hby⟩ := (h.shard s).parked hp
    cases hcall.symm.trans hf'
    exact ⟨_, rfl, haw s hp hin, hby⟩
  · intro f' todo hf' hst
    cases hf'
    exact htodo todo hst

theorem Inv.returned (hcall : w.call = some f) (hnone : undecided f = []) :
    w.returned.Inv threadOf := by
  refine ⟨fun s => ⟨fun hp => ?_, (h.shard s).opened, (h.shard s).held⟩, h.behind,
    nofun⟩
  obtain ⟨f', hf', hin, -⟩ := (h.shard s).parked hp
  cases hcall.symm.trans hf'
  rw [hnone] at hin
  cases hin

theorem Inv.start (hcall : w.call = none) (ps : Participants) (ddl : Bool) :
    (w.start ps ddl).Inv threadOf := by
  unfold ParkingNode.start
  split
  · next p q rest hps =>
      refine ⟨fun s => ⟨fun hp => ?_, (h.shard s).opened, (h.shard s).held⟩, h.behind, ?_⟩
      · obtain ⟨f, hf, -⟩ := (h.shard s).parked hp
        rw [hcall] at hf
        cases hf
      · intro f todo hf hst p' hp'
        cases hf
        obtain rfl := TxnStage.preparing.inj hst
        exact List.mem_map_of_mem hp'
  · exact h

theorem Inv.prepareNext (hcall : w.call = some f) (env : JobEnv) :
    (w.prepareNext threadOf f env).Inv threadOf := by
  unfold ParkingNode.prepareNext
  match hst : f.stage with
  | .preparing [] =>
    refine h.stage hcall (fun s _ hin => ?_) nofun
    rw [undecided, hst] at hin
    exact hin
  | .preparing ((s, statements) :: todo) =>
    have hall : undecided f = f.shards := by rw [undecided, hst]
    have hs : s ∈ f.shards := h.todo f _ hcall hst _ List.mem_cons_self
    by_cases hadm : env.admitted = true
    · simp only [if_pos hadm]
      obtain ⟨htouch, hheld, hcases⟩ :=
        WriterThread.prepareShard_spec (w.thread threadOf s) s env f.tag
      cases hprep : (w.thread threadOf s).prepareShard s env f.tag with
      | mk reply t =>
        rw [hprep] at htouch hheld hcases
        rcases hcases with ⟨hreply, hparked, hconns⟩ | ⟨hfree, hreply, hparked, hpeek⟩
        · -- no vote: every participant is told to abort
          have hno : ((w.setThread threadOf s t).stage f (.aborting f.shards)).Inv threadOf :=
            (h.calm htouch hparked hheld hconns).stage hcall
              (fun s' _ hin => hall ▸ hin) nofun
          match reply, hreply with
          | .ok false, _ => exact hno
          | .error e, _ => exact hno
        · obtain rfl : reply = .ok true := hreply
          have hby : ∀ s' ≠ s, update w.parkedBy s f.tag s' = w.parkedBy s' :=
            fun s' hs' => update_of_ne hs' _ _
          have hmine : update w.parkedBy s f.tag s = f.tag := update_self ..
          refine ⟨h.others (s := s) (t := t) rfl htouch hby ?_ ⟨fun _ => ?_, ?_, fun _ => hparked⟩,
            fun x hx => ?_, ?_⟩
          · rintro s' hs' - ⟨f', hf', hin, htag⟩
            cases hcall.symm.trans hf'
            exact ⟨_, rfl, (show s' ∈ f.shards from hall ▸ hin), (hby s' hs').trans htag⟩
          · exact ⟨_, rfl, hs, hmine⟩
          · intro c tag hc htag
            cases hpeek.symm.trans hc
            exact ⟨hparked, hmine.trans (Option.some.inj htag)⟩
          · by_cases hne : x.2.shard = s
            · -- nothing was held behind a shard that was free
              refine .inl ((h.behind x hx).resolve_right fun ⟨hin, _⟩ => hfree ?_)
              exact (h.shard s).held (List.ne_nil_of_mem (hne ▸ hin))
            · exact (h.behind x hx).others hne rfl htouch hby (List.Subset.refl _)
          · intro f' todo' hf' hst' p hp
            cases hf'
            obtain rfl := TxnStage.preparing.inj hst'
            exact h.todo f _ hcall hst p (List.mem_cons_of_mem _ hp)
    · simp only [if_neg hadm]
      exact h.stage hcall (fun s' _ hin => hall ▸ hin) nofun
  | .recording => exact h
  | .committing _ _ => exact h
  | .removing => exact h
  | .aborting _ => exact h

theorem Inv.putRecord (hcall : w.call = some f) :
    (w.putRecord f true).Inv threadOf := by
  unfold ParkingNode.putRecord
  split
  · next hst =>
      refine h.stage hcall (fun s _ hin => ?_) nofun
      rw [undecided, hst] at hin
      exact hin
  · exact h

end

/-- The decision reaches a parked shard, which may be opened, and SQLite carries it
    out. -/
def Reaches (threadOf : ShardId → Nat) (w : ParkingNode) (s : ShardId) (env : JobEnv) : Prop :=
  s ∈ (w.thread threadOf s).parked →
    env.admitted = true ∧ env.mayOpen.isOk = true ∧ env.finish.isOk = true

instance (threadOf : ShardId → Nat) (w : ParkingNode) (s : ShardId) (env : JobEnv) :
    Decidable (w.Reaches threadOf s env) :=
  inferInstanceAs (Decidable (_ → _))

section

variable (h : w.Inv threadOf)

include h

/-- After a decision the shard is free, and what was held behind it is answered. -/
theorem Inv.decide_eq (hok : w.Reaches threadOf s env) (commit : Bool) :
    ∃ t, (w.decide threadOf s commit env).2 =
        (w.setThread threadOf s t).answer ((w.thread threadOf s).held s) ∧
      Touches s (w.thread threadOf s) t ∧ s ∉ t.parked ∧
      (∀ c, t.lru.peek s = some c → c.txn = none) ∧ t.held s = [] := by
  unfold ParkingNode.decide
  by_cases hadm : env.admitted = true
  · rw [if_pos hadm]
    obtain ⟨htouch, hout, hconns, hheld⟩ :=
      WriterThread.decideShard_spec (h.shard s) (fun hp => (hok hp).2) commit
    obtain ⟨htouch', hparked', hconns', hheld', hreleased⟩ :=
      WriterThread.releaseHeld_spec ((w.thread threadOf s).decideShard s env commit).2 s env
    refine ⟨_, ?_, htouch.trans htouch', ?_, fun c hc => ?_, hheld'⟩
    · rw [← hheld, ← hreleased]
      rfl
    · rw [hparked']
      exact hout
    · rcases hconns' c hc with hc | hnone
      · exact hconns c hc
      · exact hnone
  · rw [if_neg hadm]
    have hfree : s ∉ (w.thread threadOf s).parked := fun hp => hadm (hok hp).1
    have hnone : (w.thread threadOf s).held s = [] := by
      by_contra hne
      exact hfree ((h.shard s).held hne)
    refine ⟨w.thread threadOf s, ?_, Touches.refl s _, hfree, fun c hc => ?_, hnone⟩
    · rw [hnone, setThread, thread, update_eq_self]
      rfl
    · cases htxn : c.txn with
      | none => rfl
      | some tag => exact absurd ((h.shard s).opened c tag hc htxn).1 hfree

section

variable (hcall : w.call = some f)

include hcall

/-- One decision of a call that has `s` and then `todo` to decide. -/
theorem Inv.decided
    (hok : w.Reaches threadOf s env) (commit : Bool) {stage : TxnStage} {todo : List ShardId}
    (hnow : undecided f = s :: todo) (hnext : undecided { f with stage } = todo)
    (hstage : ∀ ps, stage ≠ .preparing ps) :
    ((w.decide threadOf s commit env).2.stage f stage).Inv threadOf := by
  obtain ⟨t, heq, htouch, hout, hconns, hheld⟩ := h.decide_eq hok commit
  rw [heq]
  refine ⟨h.others (s := s) (t := t) rfl htouch (fun _ _ => rfl) ?_ (.free hout hconns hheld),
    fun x hx => ?_, ?_⟩
  · rintro s' hs' - ⟨f', hf', hin, htag⟩
    cases hcall.symm.trans hf'
    rw [hnow] at hin
    refine ⟨_, rfl, ?_, htag⟩
    rw [hnext]
    exact (List.mem_cons.1 hin).resolve_left hs'
  · by_cases hne : x.2.shard = s
    · refine .inl ?_
      rcases h.behind x hx with hin | ⟨hin, -⟩
      · exact List.mem_append_right _ hin
      · rw [hne] at hin
        exact List.mem_append_left _ hin
    · exact (h.behind x hx).others hne rfl htouch (fun _ _ => rfl) (List.subset_append_right _ _)
  · intro f' todo' hf' hst'
    cases hf'
    exact absurd hst' (hstage todo')

theorem Inv.commitNext
    (hok : ∀ s todo failed, f.stage = .committing (s :: todo) failed → w.Reaches threadOf s env) :
    (w.commitNext threadOf f env).Inv threadOf := by
  unfold ParkingNode.commitNext
  match hst : f.stage with
  | .committing [] failed =>
    have hnone : undecided f = [] := by rw [undecided, hst]
    cases failed with
    | true => exact h.returned hcall hnone
    | false =>
      show (w.stage f .removing).Inv threadOf
      refine h.stage hcall (fun s _ hin => ?_) nofun
      rw [hnone] at hin
      cases hin
  | .committing (s :: todo) failed =>
    have hnow : undecided f = s :: todo := by rw [undecided, hst]
    have hafter : ∀ failed', ((w.decide threadOf s true env).2.stage f
        (.committing todo failed')).Inv threadOf := fun failed' =>
      h.decided hcall (hok s todo failed hst) true hnow rfl nofun
    simp only
    cases hdec : w.decide threadOf s true env with
    | mk result w₁ =>
      rw [hdec] at hafter
      cases result with
      | ok _ => exact hafter failed
      | error e => exact hafter true
  | .preparing _ => exact h
  | .recording => exact h
  | .removing => exact h
  | .aborting _ => exact h

theorem Inv.removeRecord :
    (w.removeRecord f).Inv threadOf := by
  unfold ParkingNode.removeRecord
  split
  · next hst => exact h.returned hcall (by rw [undecided, hst])
  · exact h

theorem Inv.abortNext (hok : ∀ s todo, f.stage = .aborting (s :: todo) → w.Reaches threadOf s env) :
    (w.abortNext threadOf f env).Inv threadOf := by
  unfold ParkingNode.abortNext
  match hst : f.stage with
  | .aborting [] => exact h.returned hcall (by rw [undecided, hst])
  | .aborting (s :: todo) =>
    have hnow : undecided f = s :: todo := by rw [undecided, hst]
    exact h.decided hcall (hok s todo hst) false hnow rfl nofun
  | .preparing _ => exact h
  | .recording => exact h
  | .committing _ _ => exact h
  | .removing => exact h

end

end

end Steps

/-! ## Whole runs -/

section Runs

variable (threadOf : ShardId → Nat)

/-- The shard that the call under way decides next. -/
def nextDecided (w : ParkingNode) : Option ShardId :=
  w.call.bind fun f =>
    match f.stage with
    | .committing (s :: _) _ => some s
    | .aborting (s :: _) => some s
    | _ => none

/-- The record can be written, and decisions reach parked shards that are still led,
    and are carried out there. -/
def Delivered (w : ParkingNode) : ParkingAct → Prop
  | .putRecord ok => ok = true
  | .commitNext env => ∀ s ∈ w.nextDecided, w.Reaches threadOf s env
  | .abortNext env => ∀ s ∈ w.nextDecided, w.Reaches threadOf s env
  | _ => True

instance (w : ParkingNode) (a : ParkingAct) : Decidable (w.Delivered threadOf a) := by
  unfold Delivered
  split <;> infer_instance

/-- The call with this transaction has not returned. -/
def Underway (w : ParkingNode) (tag : Nat) : Prop := ∃ f, w.call = some f ∧ f.tag = tag

/-- The transaction that is open on the shard. -/
def openOn (w : ParkingNode) (s : ShardId) : Option Nat :=
  ((w.thread threadOf s).lru.peek s).bind (·.txn)

variable {threadOf} {w : ParkingNode}

theorem Inv.step (h : w.Inv threadOf) {a : ParkingAct} (hok : w.Delivered threadOf a) :
    (w.step threadOf a).Inv threadOf := by
  unfold ParkingNode.step
  split
  · exact h.submit _ _
  · exact h.batch _ _
  · exact h.ensureOpen _ _
  · exact h.quiesce _
  · next hcall => exact h.start hcall _ _
  · next hcall => exact h.prepareNext hcall _
  · next hcall =>
      obtain rfl := hok
      exact h.putRecord hcall
  · next hcall =>
      refine h.commitNext hcall fun s todo failed hst => hok s ?_
      rw [nextDecided, hcall, Option.bind_some, hst]
      rfl
  · next hcall => exact h.removeRecord hcall
  · next hcall =>
      refine h.abortNext hcall fun s todo hst => hok s ?_
      rw [nextDecided, hcall, Option.bind_some, hst]
      rfl
  · exact h

theorem inv_init (capacity : Nat) : (init capacity).Inv threadOf := by
  refine ⟨fun s => ⟨fun hp => absurd hp (Finset.notMem_empty s), fun c tag hc => ?_,
    fun hne => absurd rfl hne⟩, nofun, nofun⟩
  cases hc

/-- Shards 0 and 1 vote, and a write to shard 0 is held. -/
def voted : List ParkingAct :=
  [.start [(0, [.new "UPDATE a"]), (1, [.new "UPDATE b"])] false, .prepareNext {},
    .prepareNext {}, .prepareNext {}, .submit ⟨7, 0⟩ true, .batch 0 {}]

/-- One writer with room for one connection: the second vote evicts the first, whose
    commit then fails, and shard 1 is quiesced. -/
def evicted : List ParkingAct :=
  voted ++ [.putRecord true, .quiesce 1, .commitNext {}, .commitNext {}, .commitNext {}]

/-- The record file cannot be written; a full queue refuses a commit, or an abort; a
    shard is not this node's any more when the decision comes; SQLite refuses the
    COMMIT. -/
def leftBehind : List (List ParkingAct) :=
  [voted ++ [.putRecord false],
   voted ++ [.putRecord true, .commitNext { admitted := false }, .commitNext {}, .commitNext {}],
   [.start [(0, [.new "UPDATE a"]), (1, [.new "UPDATE b"])] false, .prepareNext {},
     .prepareNext { accepts := false }, .abortNext { admitted := false }, .abortNext {},
     .abortNext {}],
   voted ++ [.putRecord true, .commitNext { mayOpen := .error .departed }, .commitNext {},
     .commitNext {}],
   voted ++ [.putRecord true,
     .commitNext { finish := .error (.other "FOREIGN KEY constraint failed") }, .commitNext {},
     .commitNext {}]]

def oneWriter (_ : ShardId) : Nat := 0

end Runs

end ParkingNode

end Shardlite.Shard
