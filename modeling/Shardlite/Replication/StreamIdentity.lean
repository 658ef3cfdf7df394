/-
  Shardlite.Replication.StreamIdentity

  Nodes that lead and follow one shard.  A follower names the position of its
  copy by an epoch and an LSN, and the serving node compares the epoch with its
  own.  Each node counts its epochs by itself, so equal numbers need not be the
  same stream: the answer fits the copy if the copy was taken from the serving
  node itself, and the serving node's file has not changed behind its stream since,
  by a copy put in its place or by a commit that was not captured.
-/
import Shardlite.Replication.Replica
import Shardlite.Lib.Machine

namespace Shardlite.Replication

open Function

/-- What happens to the nodes. -/
inductive ReplicaAct (D T : Type) where
  | write (i : NodeId) (txn : T)
  /-- The log is reset and starts with a header of its own. -/
  | newLog (i : NodeId)
  /-- The process dies, perhaps with a batch committed and not shipped, and the new
      one may find its log. -/
  | crash (i : NodeId) (lost : Option T) (leftOver : Bool)
  | shutdown (i : NodeId) (leftOver : Bool)
  /-- The file goes to replication, or back to SQLite. -/
  | follow (i : NodeId)
  | lead (i : NodeId)
  /-- `j` asks `i` for frames and applies what it gets. -/
  | pull (j i : NodeId) (maxTxns : Nat)
  /-- `j` installs a snapshot that `i` took at `lsn`.  If the freeze of the file
      broke while it was copied, `torn` is what was copied. -/
  | bootstrap (j i : NodeId) (lsn : Nat) (torn : Option D)

namespace Replica

variable {D T : Type} (cfg : ReplicaConfig D T)

/-- One round of the pull loop against the node `i`. -/
def pull (r server : Replica D T) (i : NodeId) (maxTxns : Nat) : Replica D T :=
  match server.serve cfg r.position maxTxns with
  | .frames epoch txns =>
    if txns.isEmpty then r
    else
      match (⟨r.image, r.position⟩ : Copy D).apply cfg.app epoch txns with
      | .ok c => r.replace cfg c (some (i, server.life))
      | .error _ => r
  | _ => r

/-- Install what the node `i` had at `lsn` when it froze its file. -/
def bootstrap (r server : Replica D T) (i : NodeId) (lsn : Nat) (torn : Option D) : Replica D T :=
  match server.images server.positions.epoch lsn with
  | some image =>
    let copy := (⟨r.image, r.position⟩ : Copy D).installSnapshot server.positions.epoch lsn
      (torn.getD image)
    r.replace cfg copy (if torn.isSome then none else some (i, server.life))
  | none => r

end Replica

namespace ReplicaConfig

variable {D T : Type} (cfg : ReplicaConfig D T)

/-- Nodes that start in empty directories. -/
def init : NodeId → Replica D T := fun _ => .new cfg

def step (w : NodeId → Replica D T) : ReplicaAct D T → NodeId → Replica D T
  | .write i txn => if (w i).led then update w i ((w i).commit cfg txn) else w
  | .newLog i => update w i { w i with leftOver := false }
  | .crash i lost leftOver =>
    update w i ((w i).crash cfg (if (w i).led then lost else none) leftOver)
  | .shutdown i leftOver => update w i ((w i).shutdown cfg leftOver)
  | .follow i => update w i { w i with led := false }
  | .lead i => update w i { w i with led := true }
  | .pull j i maxTxns =>
    if ¬ (w j).led ∧ i ≠ j then update w j ((w j).pull cfg (w i) i maxTxns) else w
  | .bootstrap j i lsn torn =>
    if ¬ (w j).led ∧ (w i).led ∧ i ≠ j then
      update w j ((w j).bootstrap cfg (w i) i lsn torn)
    else w

/-- The state a run leads to. -/
def runs (acts : List (ReplicaAct D T)) : NodeId → Replica D T :=
  Machine.run cfg.step cfg.init acts

/-! ## Answers that fit -/

/-- The answer of `server` to `r` fits its copy: the copy is the server's file at
    that LSN, and the frames take it to the server's file at a later one. -/
def Fits (server r : Replica D T) (maxTxns : Nat) : Prop :=
  let images := server.images server.positions.epoch
  match server.serve cfg r.position maxTxns with
  | .upToDate => images r.position.appliedLsn = some r.image
  | .frames _ txns => images r.position.appliedLsn = some r.image ∧
      images (r.position.appliedLsn + txns.length) =
        some ((txns.map (·.txn)).foldl cfg.app r.image)
  | _ => True

/-- A copy asks only the node it was taken from, whose file has not changed behind
    its stream since, unless the epochs differ.  A node without a copy has an empty
    file, and asks a node whose file was empty when its epoch began and has not
    changed behind its stream since. -/
def Careful (w : NodeId → Replica D T) : ReplicaAct D T → Prop
  | .pull j i _ =>
    if (w j).position.epoch = 0 then
      (w j).image = cfg.empty ∧ (w i).images (w i).positions.epoch 0 = some cfg.empty
    else (w j).position.epoch = (w i).positions.epoch → (w j).origin = some (i, (w i).life)
  | _ => True

instance [DecidableEq D] (w : NodeId → Replica D T) (a : ReplicaAct D T) :
    Decidable (cfg.Careful w a) := by
  unfold Careful
  split <;> infer_instance

/-! ## The invariant -/

/-- `r` holds what the file of `server` was at the position of `r`. -/
def IsCopy (server r : Replica D T) : Prop :=
  server.images r.position.epoch r.position.appliedLsn = some r.image

/-- What every careful run keeps: a copy of the present life of its origin is what
    the origin's file was at the copy's position. -/
structure Inv (w : NodeId → Replica D T) : Prop where
  good : ∀ i, (w i).Good cfg
  origin : ∀ {j i l}, (w j).origin = some (i, l) → i ≠ j ∧ l ≤ (w i).life
  copy : ∀ {j i}, (w j).origin = some (i, (w i).life) → IsCopy (w i) (w j)

/-- In one life what is known of a file stays known. -/
structure Grows (r r' : Replica D T) : Prop where
  life : r.life ≤ r'.life
  images : r'.life = r.life → ∀ {e n d}, r.images e n = some d → r'.images e n = some d

/-- What a step may make of a node's file: no copy, the copy it was, or a copy of
    another node's stream. -/
inductive Takes (w : NodeId → Replica D T) (k : NodeId) (r' : Replica D T) : Prop where
  | none (h : r'.origin = none)
  | same (ho : r'.origin = (w k).origin) (hp : r'.position = (w k).position)
      (hi : r'.image = (w k).image)
  | copy (i : NodeId) (hne : i ≠ k) (ho : r'.origin = some (i, (w i).life)) (h : IsCopy (w i) r')

variable {cfg} {w : NodeId → Replica D T}
variable {r' r : Replica D T} {j i : NodeId} {maxTxns : Nat}

theorem Inv.set (hw : cfg.Inv w) {k : NodeId} (hgood : r'.Good cfg)
    (hgrows : Grows (w k) r') (htakes : Takes w k r') : cfg.Inv (update w k r') := by
  have hlife : ∀ i, (w i).life ≤ (update w k r' i).life := by
    intro i
    rw [update_apply]
    split_ifs with hi
    · exact hi ▸ hgrows.life
    · exact le_refl _
  have horigin : ∀ {j i l}, (update w k r' j).origin = some (i, l) →
      i ≠ j ∧ l ≤ (w i).life := by
    intro j i l ho
    rw [update_apply] at ho
    split_ifs at ho with hj
    · subst hj
      cases htakes with
      | none h => exact absurd (h.symm.trans ho) nofun
      | same hsame _ _ => exact hw.origin (hsame.symm.trans ho)
      | copy i' hne ho' _ =>
        obtain ⟨rfl, rfl⟩ := Prod.mk.inj (Option.mem_unique ho' ho)
        exact ⟨hne, le_refl _⟩
    · exact hw.origin ho
  refine ⟨fun i => ?_, fun ho => ?_, ?_⟩
  · rw [update_apply]
    split_ifs
    · exact hgood
    · exact hw.good i
  · exact ⟨(horigin ho).1, (horigin ho).2.trans (hlife _)⟩
  · intro j i ho
    -- the origin is of the present life, so the server's life did not change
    have hsame : (update w k r' i).life = (w i).life :=
      Nat.le_antisymm (horigin ho).2 (hlife i)
    have hserver : ∀ {r}, IsCopy (w i) r → IsCopy (update w k r' i) r := by
      intro r hcopy
      by_cases hi : i = k
      · subst hi
        rw [update_self] at hsame ⊢
        exact hgrows.images hsame hcopy
      · rw [update_of_ne hi]
        exact hcopy
    rw [hsame] at ho
    apply hserver
    rw [update_apply] at ho ⊢
    split_ifs at ho ⊢ with hj
    · subst hj
      cases htakes with
      | none h => exact absurd (h.symm.trans ho) nofun
      | same hsame hp hi =>
        have hold := hw.copy (hsame.symm.trans ho)
        rw [IsCopy, hp, hi]
        exact hold
      | copy i' hne ho' hcopy =>
        obtain ⟨rfl, -⟩ := Prod.mk.inj (Option.mem_unique ho' ho)
        exact hcopy
    · exact hw.copy ho

theorem Grows.of_lt (h : r.life < r'.life) : Grows r r' :=
  ⟨h.le, fun heq => absurd heq h.ne'⟩

theorem Grows.write (h : r.Good cfg) (txn : T) : Grows r (r.write cfg txn) := by
  refine ⟨le_refl _, fun _ e n d hd => ?_⟩
  have hlast := Replica.lastLsn_succ h.next_pos
  rw [Replica.write_images, Replica.record_of_ne]
  · exact hd
  · rcases h.known hd with hlt | ⟨-, hle⟩
    · exact .inl hlt.ne
    · exact .inr (by omega)

theorem Grows.crash (h : r.Good cfg) (lost : Option T) (leftOver : Bool) :
    Grows r (r.crash cfg lost leftOver) := by
  refine ⟨le_refl _, fun _ e n d hd => ?_⟩
  have hepoch : (Positions.loadOrInit (some r.file)).epoch = r.positions.epoch + 1 := by
    rw [Positions.loadOrInit_of_dirty h.dirty, h.epoch]
  show Replica.record r.images (Positions.loadOrInit (some r.file)).epoch 0 _ e n = some d
  rw [Replica.record_of_ne]
  · exact hd
  · rcases h.known hd with hlt | ⟨rfl, -⟩
    · exact .inl (by omega)
    · exact .inl (by omega)

/-! ## The steps -/

section

variable (hw : cfg.Inv w)

include hw

theorem Inv.write (i : NodeId) (txn : T) :
    cfg.Inv (update w i ((w i).write cfg txn)) :=
  hw.set ((hw.good i).write txn) (Grows.write (hw.good i) txn) (.none rfl)

/-- A batch that is not captured leaves no copy of an earlier life. -/
theorem Inv.commit (i : NodeId) (txn : T) : cfg.Inv (update w i ((w i).commit cfg txn)) := by
  unfold Replica.commit
  split_ifs
  · exact hw.set ((hw.good i).replace (hw.good i).position) (Grows.of_lt (Nat.lt_succ_self _))
      (.none rfl)
  · exact hw.write i txn

theorem Inv.crash (i : NodeId) (lost : Option T) (leftOver : Bool) :
    cfg.Inv (update w i ((w i).crash cfg lost leftOver)) := by
  refine hw.set ((hw.good i).crash lost leftOver) (Grows.crash (hw.good i) lost leftOver) ?_
  cases lost with
  | none => exact .same rfl rfl rfl
  | some txn => exact .none rfl

theorem Inv.shutdown (i : NodeId) (leftOver : Bool) :
    cfg.Inv (update w i ((w i).shutdown cfg leftOver)) :=
  hw.set ((hw.good i).shutdown leftOver) ⟨le_refl _, fun _ _ _ _ h => h⟩ (.same rfl rfl rfl)

theorem Inv.setFlags (i : NodeId) (led leftOver : Bool) :
    cfg.Inv (update w i { w i with led, leftOver }) := by
  obtain ⟨hd, he, hp, hn, hnow, hk, hr, hpos⟩ := hw.good i
  exact hw.set ⟨hd, he, hp, hn, hnow, hk, hr, hpos⟩ ⟨le_refl _, fun _ _ _ _ h => h⟩
    (.same rfl rfl rfl)

theorem Inv.image_of_careful (hc : cfg.Careful w (.pull j i maxTxns))
    (hepoch : (w j).position.epoch = 0 ∨ (w j).position.epoch = (w i).positions.epoch) :
    (w i).images (w i).positions.epoch (w j).position.appliedLsn = some (w j).image := by
  simp only [Careful] at hc
  split_ifs at hc with hfresh
  · obtain ⟨hempty, hhead⟩ := hc
    rw [(hw.good j).position hfresh, hempty, hhead]
  · have hsame := hepoch.resolve_left hfresh
    rw [← hsame]
    exact hw.copy (hc hsame)

end

/-- An answer other than to bootstrap goes to a fresh node or to one of the same
    epoch. -/
theorem epoch_of_serve {p : Position} {reply : SubscribeReply T}
    (h : r.serve cfg p maxTxns = reply) (hreply : ∀ reason, reply ≠ .needsBootstrap reason) :
    p.epoch = 0 ∨ p.epoch = r.positions.epoch := by
  by_contra hno
  rw [not_or] at hno
  obtain ⟨reason, hreason⟩ :=
    exists_needsBootstrap r.log cfg.shard (p.appliedLsn + 1) maxTxns hno.1 hno.2
  exact hreply reason (h.symm.trans hreason)

/-- What a careful follower gets from the frames it is served. -/
theorem Inv.serve_frames (hw : cfg.Inv w) {e : Nat} {txns : List (StreamTxn T)}
    (hc : cfg.Careful w (.pull j i maxTxns))
    (hserve : (w i).serve cfg (w j).position maxTxns = .frames e txns) :
    e = (w i).positions.epoch ∧
      (w i).images e (w j).position.appliedLsn = some (w j).image ∧
      ∃ as, txns = positioned ((w j).position.appliedLsn + 1) as ∧ as ≠ [] ∧
        (w i).images e ((w j).position.appliedLsn + as.length) =
          some (as.foldl cfg.app (w j).image) ∧
        (⟨(w j).image, (w j).position⟩ : Copy D).apply cfg.app e txns =
          .ok ⟨as.foldl cfg.app (w j).image, ⟨e, (w j).position.appliedLsn + as.length⟩⟩ := by
  have hepoch := epoch_of_serve hserve nofun
  have himage := hw.image_of_careful hc hepoch
  obtain ⟨rfl, as, rfl, hne, hfold⟩ := (hw.good i).serve hserve himage
  refine ⟨rfl, himage, as, rfl, hne, hfold, Copy.apply_positioned ?_ hne⟩
  refine hepoch.imp_left fun h0 => ?_
  simp [Position.fresh, h0, (hw.good j).position h0]

theorem Inv.pull (hw : cfg.Inv w) (hne : i ≠ j) (hc : cfg.Careful w (.pull j i maxTxns)) :
    cfg.Inv (update w j ((w j).pull cfg (w i) i maxTxns)) := by
  have hsame : cfg.Inv (update w j (w j)) := by
    rw [update_eq_self]
    exact hw
  unfold Replica.pull
  split
  · next e txns hserve =>
      obtain ⟨rfl, -, as, rfl, hne', hfold, happly⟩ := hw.serve_frames hc hserve
      rw [happly]
      split_ifs
      · exact hsame
      · exact hw.set ((hw.good j).replace fun h0 => absurd h0 (hw.good i).epoch_pos.ne')
          (Grows.of_lt (Nat.lt_succ_self _)) (.copy i hne rfl hfold)
  · exact hsame

theorem Inv.bootstrap (hw : cfg.Inv w) {lsn : Nat} {torn : Option D} (hne : i ≠ j) :
    cfg.Inv (update w j ((w j).bootstrap cfg (w i) i lsn torn)) := by
  unfold Replica.bootstrap
  split
  · next image himage =>
      refine hw.set ((hw.good j).replace fun h0 => absurd h0 (hw.good i).epoch_pos.ne')
        (Grows.of_lt (Nat.lt_succ_self _)) ?_
      cases torn with
      | none => exact .copy i hne rfl himage
      | some d => exact .none rfl
  · rw [update_eq_self]
    exact hw

theorem Inv.step (hw : cfg.Inv w) {a : ReplicaAct D T} (hc : cfg.Careful w a) :
    cfg.Inv (cfg.step w a) := by
  cases a with
  | write i txn =>
    simp only [ReplicaConfig.step]
    split_ifs
    · exact hw.commit i txn
    · exact hw
  | newLog i => exact hw.setFlags i _ false
  | crash i lost leftOver => exact hw.crash i _ leftOver
  | shutdown i leftOver => exact hw.shutdown i leftOver
  | follow i => exact hw.setFlags i false _
  | lead i => exact hw.setFlags i true _
  | pull j i maxTxns =>
    simp only [ReplicaConfig.step]
    split_ifs with h
    · exact hw.pull h.2 hc
    · exact hw
  | bootstrap j i lsn torn =>
    simp only [ReplicaConfig.step]
    split_ifs with h
    · exact hw.bootstrap h.2.2
    · exact hw

theorem inv_init : cfg.Inv cfg.init :=
  ⟨fun _ => Replica.good_new, nofun, nofun⟩

/-- Files that keep the transactions they ran. -/
def appending : ReplicaConfig (List Nat) Nat where
  shard := 0
  empty := []
  app d txn := d ++ [txn]
  retention := ⟨fun _ => 1, 0⟩
  perShardBytes := 100

def catchingUp : List (ReplicaAct (List Nat) Nat) :=
  [.write 0 7, .follow 1, .bootstrap 1 0 1 none, .write 0 8]

/-- Nodes 1 and 2 both hold what node 0 wrote; node 1 takes over and writes. -/
def failover : List (ReplicaAct (List Nat) Nat) :=
  [.write 0 7, .follow 1, .bootstrap 1 0 1 none, .follow 2, .bootstrap 2 0 1 none, .follow 0, .lead 1,
    .write 1 8]

end ReplicaConfig

end Shardlite.Replication
