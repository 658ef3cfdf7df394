/-
  Shardlite.Replication.Replica

  One node's part of one shard: its file, its own stream with the frames it
  retains, and the position of the copy it may hold of another node's stream.  A
  node that leads writes and captures; one that follows applies frames and
  installs snapshots, which its own stream does not see.  Nor does it see what a
  process commits into a log that an earlier one left behind: the capture has not
  seen the header of that log and ignores its frames.

  The last three fields are history.  `images` is what the file held at each
  position of the node's own stream, `life` counts how often the file changed
  behind the stream, which leaves only the present position known, and `origin`
  is whose stream the file was last taken from, in which life of it.
-/
import Shardlite.Replication.Follower

namespace Shardlite.Replication

/-- The shard, what frames do to a file, and how much is retained. -/
structure ReplicaConfig (D T : Type) where
  shard : ShardId
  empty : D
  app : D → T → D
  retention : Retention T
  perShardBytes : Nat

/-- A node's part of the shard. -/
structure Replica (D T : Type) where
  image : D
  /-- Whether SQLite owns the file, rather than replication. -/
  led : Bool := true
  /-- Whether the log is one that an earlier process began. -/
  leftOver : Bool := false
  positions : Positions
  /-- What the position file of the node's own stream holds. -/
  file : Positions
  log : FrameLog T
  /-- Where the copy stands that the file holds of another node's stream. -/
  position : Position := {}
  /-- By epoch and LSN. -/
  images : Nat → Nat → Option D
  life : Nat := 0
  origin : Option (NodeId × Nat) := none

namespace Replica

variable {D T : Type} (cfg : ReplicaConfig D T)

/-- One more image that is known. -/
def record (images : Nat → Nat → Option D) (epoch lsn : Nat) (d : D) : Nat → Nat → Option D :=
  fun e n => if e = epoch ∧ n = lsn then some d else images e n

/-- A node that starts in an empty directory. -/
def new : Replica D T where
  image := cfg.empty
  positions := .loadOrInit none
  file := .loadOrInit none
  log := { perShardBytes := cfg.perShardBytes }
  images := record (fun _ _ => none) 1 0 cfg.empty

variable (r : Replica D T)

/-- The last position its stream gave out. -/
def lastLsn : Nat := r.positions.lastAllocated cfg.shard

/-- A batch commits, is captured and reaches the frame log. -/
def write (txn : T) : Replica D T :=
  let image := cfg.app r.image txn
  let d := drainCapture cfg.retention ((({} : WalCapture T)).emitCommit cfg.retention txn)
    r.positions cfg.shard .accepts
  { r with
    image
    positions := d.positions
    log := r.log.accept cfg.retention.size cfg.shard d.delivered
    images := record r.images d.positions.epoch (d.positions.lastAllocated cfg.shard) image
    origin := none }

/-- The process dies and starts again, perhaps with a batch committed that was
    captured in memory only, and perhaps over the log of the old process. -/
def crash (lost : Option T) (leftOver : Bool) : Replica D T :=
  let image := lost.elim r.image (cfg.app r.image)
  let positions := Positions.loadOrInit (some r.file)
  { r with
    image, positions, leftOver
    led := true
    file := positions
    log := { perShardBytes := cfg.perShardBytes }
    images := record r.images positions.epoch 0 image
    origin := if lost.isSome then none else r.origin }

/-- The process stops cleanly and starts again.  Its epoch goes on; the retained
    frames do not. -/
def shutdown (leftOver : Bool) : Replica D T :=
  let positions := Positions.loadOrInit (some r.positions.markClean)
  { r with
    led := true, leftOver, positions, file := positions, log := { perShardBytes := cfg.perShardBytes } }

/-- Replication puts a copy of another node's stream in place of the file. -/
def replace (c : Copy D) (origin : Option (NodeId × Nat)) : Replica D T :=
  { r with
    image := c.image
    position := c.position
    images := record (fun _ _ => none) r.positions.epoch (r.lastLsn cfg) c.image
    life := r.life + 1
    origin }

/-- A batch commits, and its frames are captured unless the log is left over. -/
def commit (txn : T) : Replica D T :=
  if r.leftOver then r.replace cfg ⟨cfg.app r.image txn, r.position⟩ none else r.write cfg txn

/-- What the node answers to a follower at `p`. -/
def serve (p : Position) (maxTxns : Nat) : SubscribeReply T :=
  serveSubscribe (some r.positions.epoch) (some r.log) cfg.shard p.epoch (p.appliedLsn + 1) maxTxns

/-! ## What holds of a node -/

/-- Each of these transactions leads from a known image to the next. -/
def Chain (images : Nat → Option D) (first : Nat) (as : List T) : Prop :=
  ∀ k a d, as[k]? = some a → images (first + k - 1) = some d → images (first + k) = some (cfg.app d a)

/-- What holds of a node in every run. -/
structure Good : Prop where
  dirty : r.file.clean = false
  epoch : r.file.epoch = r.positions.epoch
  epoch_pos : 0 < r.positions.epoch
  next_pos : 0 < r.positions.nextLsn cfg.shard
  now : r.images r.positions.epoch (r.lastLsn cfg) = some r.image
  known : ∀ {e n d}, r.images e n = some d →
    e < r.positions.epoch ∨ e = r.positions.epoch ∧ n ≤ r.lastLsn cfg
  retained : ∀ l, r.log.shards.get? cfg.shard = some l → ∃ first as, l.txns = positioned first as ∧
    as ≠ [] ∧ 0 < first ∧ first + as.length = r.positions.nextLsn cfg.shard ∧
      Chain cfg (r.images r.positions.epoch) first as
  position : r.position.epoch = 0 → r.position.appliedLsn = 0

variable {cfg r}
variable {d : D} {first : Nat} {as : List T}

@[simp] theorem record_self (images : Nat → Nat → Option D) (epoch lsn : Nat) (d : D) :
    record images epoch lsn d epoch lsn = some d := if_pos ⟨rfl, rfl⟩

theorem record_of_ne {images : Nat → Nat → Option D} {epoch lsn e n : Nat}
    (h : e ≠ epoch ∨ n ≠ lsn) : record images epoch lsn d e n = images e n :=
  if_neg fun ⟨he, hn⟩ => h.elim (· he) (· hn)

theorem of_record {images : Nat → Nat → Option D} {epoch lsn e n : Nat} {d' : D}
    (h : record images epoch lsn d e n = some d') :
    (e = epoch ∧ n = lsn ∧ d = d') ∨ images e n = some d' := by
  unfold record at h
  split_ifs at h with hat
  · exact .inl ⟨hat.1, hat.2, Option.some.inj h⟩
  · exact .inr h

theorem foldl_of_chain {images : Nat → Option D} {p : Nat} (as : List T)
    (hchain : ∀ k a d, as[k]? = some a → images (p + k) = some d →
      images (p + k + 1) = some (cfg.app d a))
    (hd : images p = some d) : images (p + as.length) = some (as.foldl cfg.app d) := by
  induction as generalizing p d with
  | nil => exact hd
  | cons a as ih =>
    have hnext := hchain 0 a d rfl hd
    have hrest : ∀ k b e, as[k]? = some b → images (p + 1 + k) = some e →
        images (p + 1 + k + 1) = some (cfg.app e b) := by
      intro k b e hb he
      rw [Nat.add_right_comm p 1 k, Nat.add_assoc] at he ⊢
      exact hchain (k + 1) b e hb he
    have htail := ih hrest hnext
    rw [List.foldl_cons, List.length_cons, ← htail]
    congr 1
    omega

theorem lastLsn_succ (h : 0 < r.positions.nextLsn cfg.shard) :
    r.lastLsn cfg + 1 = r.positions.nextLsn cfg.shard := by
  unfold lastLsn Positions.lastAllocated
  unfold Positions.nextLsn at h ⊢
  cases hget : r.positions.next.get? cfg.shard with
  | none => rfl
  | some n =>
    rw [hget, Option.getD_some] at h
    rw [Option.map_some, Option.getD_some, Option.getD_some]
    omega

theorem good_new : (new cfg).Good cfg where
  dirty := rfl
  epoch := rfl
  epoch_pos := Nat.zero_lt_one
  next_pos := Nat.zero_lt_one
  now := rfl
  known {e n d} h := by
    have h : record (fun _ _ => none) 1 0 cfg.empty e n = some d := h
    rcases of_record h with ⟨rfl, rfl, -⟩ | h
    · exact .inr ⟨rfl, le_refl _⟩
    · cases h
  retained := nofun
  position := fun _ => rfl

theorem Good.crash (h : r.Good cfg) (lost : Option T) (leftOver : Bool) :
    (r.crash cfg lost leftOver).Good cfg := by
  have hload : Positions.loadOrInit (some r.file) = { epoch := r.positions.epoch + 1 } := by
    rw [Positions.loadOrInit_of_dirty h.dirty, h.epoch]
  unfold Replica.crash
  simp only [hload]
  refine ⟨rfl, rfl, Nat.succ_pos _, Nat.zero_lt_one, record_self .., fun hknown => ?_, nofun,
    h.position⟩
  rcases of_record hknown with ⟨rfl, rfl, -⟩ | hknown
  · exact .inr ⟨rfl, le_refl _⟩
  · rcases h.known hknown with hlt | ⟨rfl, -⟩
    · exact .inl (Nat.lt_succ_of_lt hlt)
    · exact .inl (Nat.lt_succ_self _)

theorem Good.shutdown (h : r.Good cfg) (leftOver : Bool) : (r.shutdown cfg leftOver).Good cfg := by
  unfold Replica.shutdown
  simp only [Positions.loadOrInit_markClean]
  exact ⟨rfl, rfl, h.epoch_pos, h.next_pos, h.now, h.known, nofun, h.position⟩

theorem replace_images (c : Copy D) (origin : Option (NodeId × Nat)) :
    (r.replace cfg c origin).images =
      record (fun _ _ => none) r.positions.epoch (r.lastLsn cfg) c.image := rfl

theorem Good.replace (h : r.Good cfg) {c : Copy D} {origin : Option (NodeId × Nat)}
    (hc : c.position.epoch = 0 → c.position.appliedLsn = 0) : (r.replace cfg c origin).Good cfg := by
  refine ⟨h.dirty, h.epoch, h.epoch_pos, h.next_pos, ?_, fun hknown => ?_, ?_, hc⟩
  · rw [replace_images]
    exact record_self ..
  · rw [replace_images] at hknown
    rcases of_record hknown with ⟨rfl, rfl, -⟩ | hknown
    · exact .inr ⟨rfl, le_refl _⟩
    · cases hknown
  · -- nothing retained leads on from the one image still known
    intro l hl
    obtain ⟨first, as, htxns, hne, hfirst, hend, -⟩ := h.retained l hl
    refine ⟨first, as, htxns, hne, hfirst, hend, fun k a d ha hknown => ?_⟩
    have hk : k < as.length := (List.getElem?_eq_some_iff.1 ha).1
    have hlast := lastLsn_succ h.next_pos
    have hend : first + as.length = r.positions.nextLsn cfg.shard := hend
    rw [replace_images] at hknown
    rcases of_record hknown with ⟨-, hn, -⟩ | hknown
    · omega
    · cases hknown

theorem Chain.drop {images : Nat → Option D} {n : Nat} (h : Chain cfg images first as) :
    Chain cfg images (first + n) (as.drop n) := by
  intro k a d ha hd
  rw [List.getElem?_drop] at ha
  rw [Nat.add_assoc] at hd ⊢
  exact h (n + k) a d ha hd

section Write

variable (h : r.Good cfg) (txn : T)

theorem write_lastLsn : (r.write cfg txn).lastLsn cfg = r.positions.nextLsn cfg.shard := by
  have hnext : (r.write cfg txn).positions.next.get? cfg.shard =
      some (r.positions.nextLsn cfg.shard + 1) := by
    show ((r.positions.allocate cfg.shard 1).2).next.get? cfg.shard = _
    rw [Positions.allocate, OrdMap.get?_insert, if_pos rfl]
  rw [lastLsn, Positions.lastAllocated, hnext]
  rfl

theorem write_images : (r.write cfg txn).images =
    record r.images r.positions.epoch (r.positions.nextLsn cfg.shard) (cfg.app r.image txn) := by
  rw [← write_lastLsn txn]
  rfl

theorem Chain.write (hpos : 0 < first) (hend : first + as.length = r.positions.nextLsn cfg.shard)
    (hchain : Chain cfg (r.images r.positions.epoch) first as) :
    Chain cfg ((r.write cfg txn).images r.positions.epoch) first as := by
  intro k a d ha hd
  have hk : k < as.length := (List.getElem?_eq_some_iff.1 ha).1
  rw [write_images, record_of_ne (.inr (by omega))] at hd ⊢
  exact hchain k a d ha hd

include h in
theorem Good.retained_write :
    ∃ first as, ((r.log.shards.get? cfg.shard).getD {}).txns ++
        positioned (r.positions.nextLsn cfg.shard) [txn] = positioned first as ∧ as ≠ [] ∧
      0 < first ∧ first + as.length = r.positions.nextLsn cfg.shard + 1 ∧
        Chain cfg ((r.write cfg txn).images r.positions.epoch) first as := by
  -- the new transaction leads from the present image to the new one
  have hnew : ∀ d, (r.write cfg txn).images r.positions.epoch
        (r.positions.nextLsn cfg.shard - 1) = some d →
      (r.write cfg txn).images r.positions.epoch (r.positions.nextLsn cfg.shard) =
        some (cfg.app d txn) := by
    intro d hd
    have hnext := h.next_pos
    have hlast := lastLsn_succ hnext
    rw [write_images, record_of_ne (.inr (by omega)), ← hlast, Nat.add_sub_cancel, h.now] at hd
    cases hd
    rw [write_images]
    exact record_self ..
  cases hget : r.log.shards.get? cfg.shard with
  | none =>
    refine ⟨_, [txn], rfl, nofun, h.next_pos, rfl, fun k a d ha hd => ?_⟩
    obtain rfl : k = 0 := by
      have := (List.getElem?_eq_some_iff.1 ha).1
      rw [List.length_singleton] at this
      omega
    cases ha
    exact hnew d hd
  | some l =>
    obtain ⟨first, as, htxns, hne, hfirst, hend, hchain⟩ := h.retained l hget
    refine ⟨first, as ++ [txn], ?_, by simp, hfirst, ?_, fun k a d ha hd => ?_⟩
    · rw [Option.getD_some, htxns, ← hend, ← positioned_append]
    · rw [List.length_append, List.length_singleton, ← hend, Nat.add_assoc]
    · rcases Nat.lt_or_ge k as.length with hk | hk
      · rw [List.getElem?_append_left hk] at ha
        exact hchain.write txn hfirst hend k a d ha hd
      · have hlen := (List.getElem?_eq_some_iff.1 ha).1
        rw [List.length_append, List.length_singleton] at hlen
        obtain rfl : k = as.length := by omega
        rw [List.getElem?_concat_length] at ha
        cases ha
        rw [hend] at hd ⊢
        exact hnew d hd

include h in
theorem Good.write : (r.write cfg txn).Good cfg := by
  have hnext : (r.write cfg txn).positions.nextLsn cfg.shard = r.positions.nextLsn cfg.shard + 1 := by
    show (r.positions.allocate cfg.shard 1).2.nextLsn cfg.shard = _
    rw [Positions.nextLsn_allocate, if_pos rfl]
  refine ⟨h.dirty, h.epoch, h.epoch_pos, ?_, ?_, fun {e n d} hknown => ?_, ?_, h.position⟩
  · rw [hnext]
    exact Nat.succ_pos _
  · rw [write_images, write_lastLsn]
    exact record_self ..
  · rw [write_lastLsn]
    rw [write_images] at hknown
    have hlast := lastLsn_succ h.next_pos
    rcases of_record hknown with ⟨rfl, rfl, -⟩ | hknown
    · exact .inr ⟨rfl, le_refl _⟩
    · refine (h.known hknown).imp_right fun hle => ⟨hle.1, ?_⟩
      have := hle.2
      omega
  · intro l hl
    obtain ⟨first, as, htxns, hne, hfirst, hend, hchain⟩ := h.retained_write txn
    obtain ⟨l', hget, hkeep, hsuf⟩ := accept_spec r.log cfg.retention.size cfg.shard
      (show positioned (r.positions.nextLsn cfg.shard) [txn] ≠ [] from nofun)
    obtain rfl : l = l' := Option.mem_unique hl hget
    rw [htxns] at hsuf
    obtain ⟨n, hn, hdrop⟩ := exists_positioned_of_suffix hsuf
    refine ⟨first + n, as.drop n, hdrop, ?_, Nat.add_pos_left hfirst _, ?_, hchain.drop⟩
    · rintro hnil
      rw [hnil] at hdrop
      exact hkeep hdrop
    · rw [hnext, ← hend, List.length_drop]
      omega

end Write

/-- Frames served to a copy of this stream take it on to a later image. -/
theorem Good.serve (h : r.Good cfg) {p : Position} {maxTxns e : Nat} {txns : List (StreamTxn T)}
    (hserve : r.serve cfg p maxTxns = .frames e txns)
    (hd : r.images r.positions.epoch p.appliedLsn = some d) :
    e = r.positions.epoch ∧ ∃ as, txns = positioned (p.appliedLsn + 1) as ∧ as ≠ [] ∧
      r.images r.positions.epoch (p.appliedLsn + as.length) = some (as.foldl cfg.app d) := by
  obtain ⟨rfl, hlog⟩ := serveSubscribe_eq_frames hserve
  refine ⟨rfl, ?_⟩
  cases hget : r.log.shards.get? cfg.shard with
  | none =>
    rw [FrameLog.serve, hget] at hlog
    simp only at hlog
    split_ifs at hlog
  | some l =>
    obtain ⟨first, as, htxns, hne, hfirst, hend, hchain⟩ := h.retained l hget
    rw [serve_positioned hget htxns hne] at hlog
    split_ifs at hlog with hup hold
    obtain rfl := Served.frames.inj hlog
    refine ⟨_, rfl, ?_, foldl_of_chain _ (fun k a d ha hd => ?_) hd⟩
    · rw [Ne, List.take_eq_nil_iff, List.drop_eq_nil_iff]
      omega
    · have hk := (List.getElem?_eq_some_iff.1 ha).1
      rw [List.length_take] at hk
      rw [List.getElem?_take_of_lt (by omega)] at ha
      have hstart : first + (p.appliedLsn + 1 - first) + k = p.appliedLsn + k + 1 := by omega
      have hnext := hchain.drop (n := p.appliedLsn + 1 - first) k a d ha
      rw [hstart, Nat.add_sub_cancel] at hnext
      exact hnext hd

end Replica

end Shardlite.Replication
