/-
  Shardlite.Replication.Ordered

  The images a node's file had, in the order of its own stream.  A file only
  grows between two replacements, so of two known images the one at the later
  position holds all that the earlier one held.
-/
import Shardlite.Replication.StreamIdentity

namespace Shardlite.Replication

/-- `p` is not after `q` in one node's stream: epochs first, then LSNs. -/
def Position.AtMost (p q : Position) : Prop :=
  p.epoch < q.epoch ∨ p.epoch = q.epoch ∧ p.appliedLsn ≤ q.appliedLsn

instance (p q : Position) : Decidable (p.AtMost q) := inferInstanceAs (Decidable (_ ∨ _))

variable {p : Position}

theorem Position.AtMost.refl (p : Position) : p.AtMost p := .inr ⟨rfl, le_refl _⟩

theorem Position.AtMost.trans {q r : Position} (hpq : p.AtMost q) (hqr : q.AtMost r) :
    p.AtMost r := by
  unfold AtMost at *
  omega

/-- Every transaction only adds to a file, in the sense of `R`. -/
structure Growing {D T : Type} (cfg : ReplicaConfig D T) (R : D → D → Prop) : Prop where
  refl : ∀ d, R d d
  trans : ∀ {a b c}, R a b → R b c → R a c
  app : ∀ d txn, R d (cfg.app d txn)

namespace Replica

variable {D T : Type} {cfg : ReplicaConfig D T} {R : D → D → Prop} {r : Replica D T}

def ownPosition (cfg : ReplicaConfig D T) (r : Replica D T) : Position :=
  ⟨r.positions.epoch, r.lastLsn cfg⟩

/-- Later images hold what earlier ones held. -/
structure Ordered (R : D → D → Prop) (r : Replica D T) : Prop where
  le : ∀ {p q : Position} {d d'}, r.images p.epoch p.appliedLsn = some d →
    r.images q.epoch q.appliedLsn = some d' → p.AtMost q → R d d'

variable {d : D}

theorem Good.known_atMost (h : r.Good cfg) (hp : r.images p.epoch p.appliedLsn = some d) :
    p.AtMost (r.ownPosition cfg) :=
  h.known hp

theorem Ordered.known_image (ho : r.Ordered R) (h : r.Good cfg)
    (hp : r.images p.epoch p.appliedLsn = some d) : R d r.image :=
  have hnow : r.images (r.ownPosition cfg).epoch (r.ownPosition cfg).appliedLsn =
    some r.image := h.now
  ho.le hp hnow (h.known_atMost hp)

section

variable (hR : Growing cfg R)

include hR

variable {image : D}

/-- One more image, after all the others and above the present one. -/
theorem Ordered.record (ho : r.Ordered R) (h : r.Good cfg) {e n : Nat}
    (hafter : ¬ Position.AtMost ⟨e, n⟩ (r.ownPosition cfg)) (himage : R r.image image) :
    ∀ {p q : Position} {d d'}, Replica.record r.images e n image p.epoch p.appliedLsn = some d →
      Replica.record r.images e n image q.epoch q.appliedLsn = some d' → p.AtMost q → R d d' := by
  intro p q d d' hp hq hpq
  rcases of_record hp with ⟨hpe, hpn, hd⟩ | hp
  · rcases of_record hq with ⟨-, -, hd'⟩ | hq
    · subst hd hd'
      exact hR.refl _
    · -- the new image would be before an old one
      have hnew : p = ⟨e, n⟩ := by rw [← hpe, ← hpn]
      exact absurd (hpq.trans (h.known_atMost hq)) (hnew ▸ hafter)
  · rcases of_record hq with ⟨-, -, hd'⟩ | hq
    · subst hd'
      exact hR.trans (ho.known_image h hp) himage
    · exact ho.le hp hq hpq

theorem Ordered.single {e n : Nat}
    (h : r.images = Replica.record (fun _ _ => none) e n image) : r.Ordered R := by
  have honly : ∀ {p : Position} {d}, r.images p.epoch p.appliedLsn = some d → image = d := by
    intro p d hp
    rw [h] at hp
    rcases of_record hp with ⟨-, -, hd⟩ | hp
    · exact hd
    · cases hp
  constructor
  intro p q d d' hp hq _
  rw [← honly hp, ← honly hq]
  exact hR.refl _

theorem ordered_new : (Replica.new cfg).Ordered R :=
  Ordered.single hR rfl

theorem Ordered.write (ho : r.Ordered R) (h : r.Good cfg) (txn : T) :
    (r.write cfg txn).Ordered R := by
  have hlast := lastLsn_succ h.next_pos
  constructor
  intro p q d d' hp hq hpq
  rw [write_images] at hp hq
  refine ho.record hR h ?_ (hR.app _ txn) hp hq hpq
  rintro (hlt | ⟨-, hle⟩)
  · exact lt_irrefl _ hlt
  · have hle : r.positions.nextLsn cfg.shard ≤ r.lastLsn cfg := hle
    omega

theorem Ordered.crash (ho : r.Ordered R) (h : r.Good cfg) (lost : Option T) (leftOver : Bool) :
    (r.crash cfg lost leftOver).Ordered R := by
  have hepoch : (Positions.loadOrInit (some r.file)).epoch = r.positions.epoch + 1 := by
    rw [Positions.loadOrInit_of_dirty h.dirty, h.epoch]
  have himage : R r.image (lost.elim r.image (cfg.app r.image)) := by
    cases lost with
    | none => exact hR.refl _
    | some txn => exact hR.app _ txn
  constructor
  intro p q d d' hp hq hpq
  refine ho.record hR h ?_ himage hp hq hpq
  rw [hepoch]
  rintro (hlt | ⟨heq, -⟩)
  · have hlt : r.positions.epoch + 1 < r.positions.epoch := hlt
    omega
  · have heq : r.positions.epoch + 1 = r.positions.epoch := heq
    omega

theorem Ordered.replace (c : Copy D) (origin : Option (NodeId × Nat)) :
    (r.replace cfg c origin).Ordered R :=
  Ordered.single hR (replace_images c origin)

end

end Replica

/-! ## What a follower gets -/

section Follower

variable {D T : Type} {cfg : ReplicaConfig D T} {w : NodeId → Replica D T} {j i : NodeId}

theorem ReplicaConfig.Inv.pull_cases {maxTxns : Nat} (hw : cfg.Inv w)
    (hc : cfg.Careful w (.pull j i maxTxns)) :
    (w j).pull cfg (w i) i maxTxns = w j ∨
      ∃ c : Copy D, (w j).pull cfg (w i) i maxTxns = (w j).replace cfg c (some (i, (w i).life)) ∧
        (w j).position.AtMost c.position := by
  unfold Replica.pull
  split
  · next e txns hserve =>
      obtain ⟨rfl, -, as, rfl, -, -, happly⟩ := hw.serve_frames hc hserve
      rw [happly]
      split_ifs
      · exact .inl rfl
      · refine .inr ⟨_, rfl, ?_⟩
        rcases epoch_of_serve hserve (nofun) with hfresh | hsame
        · exact .inl (hfresh ▸ (hw.good i).epoch_pos)
        · exact .inr ⟨hsame, Nat.le_add_right _ _⟩
  · exact .inl rfl

theorem Replica.bootstrap_cases (r server : Replica D T) (i : NodeId) (lsn : Nat)
    (torn : Option D) :
    r.bootstrap cfg server i lsn torn = r ∨
      ∃ c : Copy D, c.position = ⟨server.positions.epoch, lsn⟩ ∧
        r.bootstrap cfg server i lsn torn =
          r.replace cfg c (if torn.isSome then none else some (i, server.life)) := by
  unfold Replica.bootstrap
  split
  · exact .inr ⟨_, rfl, rfl⟩
  · exact .inl rfl

end Follower

end Shardlite.Replication
