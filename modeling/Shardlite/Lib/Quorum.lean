/-
  Shardlite.Lib.Quorum

  Majorities of a finite set of voters.  Any two majorities of the same set
  share a voter; that is the only fact about quorums the protocols rest on.

  A voter configuration is a set and, while it is being replaced, the set that
  replaces it; a joint quorum is a majority of each.  Joint quorums of two
  configurations one step of a change apart share a voter too.
-/
import Mathlib

namespace Quorum

variable {α : Type*} [DecidableEq α]

/-- More than half of `voters` are among `acks`. -/
def Majority (acks voters : Finset α) : Prop :=
  voters.card / 2 + 1 ≤ (acks ∩ voters).card

instance (acks voters : Finset α) : Decidable (Majority acks voters) :=
  inferInstanceAs (Decidable (_ ≤ _))

variable {voters : Finset α}

theorem Majority.mono {acks acks' : Finset α} (h : Majority acks voters)
    (hsub : acks ∩ voters ⊆ acks') : Majority acks' voters := by
  have hle : (acks ∩ voters).card ≤ (acks' ∩ voters).card :=
    Finset.card_le_card fun x hx =>
      Finset.mem_inter.2 ⟨hsub hx, (Finset.mem_inter.1 hx).2⟩
  exact le_trans h hle

/-- **Quorum intersection.**  Two majorities of one voter set share a voter. -/
theorem Majority.exists_common {a b : Finset α} (ha : Majority a voters)
    (hb : Majority b voters) : ∃ v ∈ voters, v ∈ a ∧ v ∈ b := by
  by_contra hno
  push Not at hno
  have hdisj : Disjoint (a ∩ voters) (b ∩ voters) := by
    rw [Finset.disjoint_left]
    intro v hva hvb
    obtain ⟨hva, hv⟩ := Finset.mem_inter.1 hva
    exact hno v hv hva (Finset.mem_inter.1 hvb).1
  have hunion : (a ∩ voters ∪ b ∩ voters).card ≤ voters.card :=
    Finset.card_le_card (Finset.union_subset Finset.inter_subset_right Finset.inter_subset_right)
  rw [Finset.card_union_of_disjoint hdisj] at hunion
  unfold Majority at ha hb
  omega

theorem majority_self (h : voters.Nonempty) : Majority voters voters := by
  unfold Majority
  rw [Finset.inter_self]
  have := h.card_pos
  omega

theorem eq_singleton_of_majority {i : α} (h : Majority {i} voters) :
    voters = {i} := by
  have hle : (({i} : Finset α) ∩ voters).card ≤ 1 :=
    le_trans (Finset.card_le_card Finset.inter_subset_left) (Finset.card_singleton i).le
  unfold Majority at h
  have hcard : voters.card ≤ 1 := by omega
  obtain ⟨j, hj⟩ : (({i} : Finset α) ∩ voters).Nonempty := Finset.card_pos.1 (by omega)
  obtain ⟨hji, hjv⟩ := Finset.mem_inter.1 hj
  obtain rfl := Finset.mem_singleton.1 hji
  exact Finset.eq_singleton_iff_unique_mem.2
    ⟨hjv, fun k hk => Finset.card_le_one.1 hcard k hk j hjv⟩

/-! ## Changing the voters -/

/-- A majority of the voters, and of the next ones during a change. -/
def Joint (acks : Finset α) (sets : Finset α × Option (Finset α)) : Prop :=
  Majority acks sets.1 ∧ ∀ next ∈ sets.2, Majority acks next

/-- One step of a change: none at all, into joint quorums, or out of them to the
    new voters alone. -/
def Step (sets sets' : Finset α × Option (Finset α)) : Prop :=
  sets' = sets ∨ (sets.2 = none ∧ sets'.1 = sets.1 ∧ sets'.2 ≠ none) ∨
    (sets.2 = some sets'.1 ∧ sets'.2 = none)

instance (sets sets' : Finset α × Option (Finset α)) : Decidable (Step sets sets') :=
  inferInstanceAs (Decidable (_ ∨ _ ∨ _))

section Change

variable {a b : Finset α} {sets sets' : Finset α × Option (Finset α)}

theorem Joint.exists_common (ha : Joint a sets) (hb : Joint b sets) : ∃ v ∈ a, v ∈ b := by
  obtain ⟨v, -, hva, hvb⟩ := ha.1.exists_common hb.1
  exact ⟨v, hva, hvb⟩

theorem Joint.exists_common_of_step (h : Step sets sets') (ha : Joint a sets)
    (hb : Joint b sets') : ∃ v ∈ a, v ∈ b := by
  rcases h with rfl | ⟨-, hsame, -⟩ | ⟨hnext, -⟩
  · exact ha.exists_common hb
  · obtain ⟨v, -, hva, hvb⟩ := ha.1.exists_common (hsame ▸ hb.1)
    exact ⟨v, hva, hvb⟩
  · obtain ⟨v, -, hva, hvb⟩ := (ha.2 sets'.1 hnext).exists_common hb.1
    exact ⟨v, hva, hvb⟩

/-- Who is enough to enter joint quorums is enough without them. -/
theorem Joint.of_entering (hnone : sets.2 = none) (hsame : sets'.1 = sets.1)
    (h : Joint a sets') : Joint a sets := by
  refine ⟨hsame ▸ h.1, fun next hnext => ?_⟩
  rw [hnone] at hnext
  cases hnext

end Change

end Quorum
