/-
  Shardlite.Lib.Ballots

  Numbered ballots over one voter set, for values that compete for slots.  A
  voter accepts a value in a ballot, and its clock never lets it accept in a
  ballot below the clock.  A value is chosen when a majority accepted it in one
  ballot; it is choosable while a majority accepted it or still could.

  The discipline that makes choices unique: a ballot proposes one value a slot,
  and proposes it only when no rival is choosable in a lower ballot.
-/
import Shardlite.Lib.Quorum

/-- What the voters have accepted, and how far their clocks are. -/
structure Ballots (V α : Type*) where
  voters : Finset V
  accepted : V → Nat → α → Prop
  clock : V → Nat

namespace Ballots

variable {V α : Type*} [DecidableEq V]

/-- A majority accepted `v` in ballot `t`. -/
def Chosen (b : Ballots V α) (t : Nat) (v : α) : Prop :=
  ∃ Q, Quorum.Majority Q b.voters ∧ ∀ u ∈ Q, u ∈ b.voters → b.accepted u t v

/-- A majority accepted `v` in ballot `t`, or is not past that ballot yet. -/
def Choosable (b : Ballots V α) (t : Nat) (v : α) : Prop :=
  ∃ Q, Quorum.Majority Q b.voters ∧
    ∀ u ∈ Q, u ∈ b.voters → b.accepted u t v ∨ b.clock u ≤ t

/-- No rival of `v` is choosable below ballot `t`. -/
def Safe (b : Ballots V α) (slot : α → Nat) (t : Nat) (v : α) : Prop :=
  ∀ t' < t, ∀ v', slot v' = slot v → v' ≠ v → ¬ b.Choosable t' v'

/-- Every accepted value was proposed, safely, and alone in its ballot and slot. -/
structure Disciplined (b : Ballots V α) (slot : α → Nat) (proposed : Nat → α → Prop) : Prop where
  origin : ∀ {u t v}, b.accepted u t v → proposed t v
  safe : ∀ {t v}, proposed t v → b.Safe slot t v
  one : ∀ {t v v'}, proposed t v → proposed t v' → slot v = slot v' → v = v'

/-- One step on: clocks only advance, nothing accepted is forgotten, and nothing
    is accepted below the clock. -/
structure Advances (b b' : Ballots V α) : Prop where
  voters : b'.voters = b.voters
  clock : ∀ u, b.clock u ≤ b'.clock u
  keeps : ∀ {u t v}, b.accepted u t v → b'.accepted u t v
  above : ∀ {u t v}, b'.accepted u t v → b.accepted u t v ∨ b.clock u ≤ t

omit [DecidableEq V] in
theorem Advances.refl (b : Ballots V α) : b.Advances b := ⟨rfl, fun _ => le_rfl, id, .inl⟩

section

variable {b b' : Ballots V α} {slot : α → Nat} {proposed : Nat → α → Prop} {t t' : Nat} {v v' : α}

theorem Chosen.choosable (h : b.Chosen t v) : b.Choosable t v := by
  obtain ⟨Q, hQ, hacc⟩ := h
  exact ⟨Q, hQ, fun u hu hv => .inl (hacc u hu hv)⟩

theorem Chosen.exists_accepted (h : b.Chosen t v) : ∃ u, b.accepted u t v := by
  obtain ⟨Q, hQ, hacc⟩ := h
  obtain ⟨u, hu, huQ, -⟩ := hQ.exists_common hQ
  exact ⟨u, hacc u huQ hu⟩

/-! ## Steps -/

theorem Advances.chosen (h : b.Advances b') (hc : b.Chosen t v) : b'.Chosen t v := by
  obtain ⟨Q, hQ, hacc⟩ := hc
  refine ⟨Q, h.voters ▸ hQ, fun u hu hv => h.keeps (hacc u hu ?_)⟩
  rw [← h.voters]
  exact hv

theorem Advances.choosable (h : b.Advances b') (hc : b'.Choosable t v) : b.Choosable t v := by
  obtain ⟨Q, hQ, hacc⟩ := hc
  refine ⟨Q, h.voters ▸ hQ, fun u hu hv => ?_⟩
  rw [← h.voters] at hv
  rcases hacc u hu hv with ha | hle
  · exact h.above ha
  · exact .inr (le_trans (h.clock u) hle)

theorem Advances.safe (h : b.Advances b') (hs : b.Safe slot t v) : b'.Safe slot t v :=
  fun t' ht v' hslot hne hc => hs t' ht v' hslot hne (h.choosable hc)

theorem Disciplined.advance (hd : b.Disciplined slot proposed) (h : b.Advances b')
    (horigin : ∀ {u t v}, b'.accepted u t v → proposed t v) : b'.Disciplined slot proposed :=
  ⟨horigin, fun hp => h.safe (hd.safe hp), hd.one⟩

/-- Proposing a safe value that is alone in its ballot keeps the discipline. -/
theorem Disciplined.propose {proposed' : Nat → α → Prop} (hd : b.Disciplined slot proposed)
    (hkeep : ∀ {t v}, proposed t v → proposed' t v)
    (hnew : ∀ {t' v'}, proposed' t' v' → proposed t' v' ∨ t' = t ∧ v' = v)
    (hsafe : b.Safe slot t v) (hone : ∀ {v'}, proposed t v' → slot v = slot v' → v = v') :
    b.Disciplined slot proposed' := by
  refine ⟨fun ha => hkeep (hd.origin ha), ?_, ?_⟩
  · intro t' v' hp
    rcases hnew hp with hp | ⟨rfl, rfl⟩
    · exact hd.safe hp
    · exact hsafe
  · intro t' v' v'' hp hp' hslot
    rcases hnew hp with hp | ⟨rfl, rfl⟩ <;> rcases hnew hp' with hp' | ⟨ht, hv⟩
    · exact hd.one hp hp' hslot
    · subst ht hv
      exact (hone hp hslot.symm).symm
    · exact hone hp' hslot
    · exact hv.symm

/-! ## Agreement -/

/-- Once a majority is past a ballot, whatever is choosable there was accepted
    there by one of its members. -/
theorem Choosable.exists_accepted {Q : Finset V} (h : b.Choosable t v)
    (hQ : Quorum.Majority Q b.voters) (hpast : ∀ u ∈ Q, u ∈ b.voters → t < b.clock u) :
    ∃ u ∈ Q, u ∈ b.voters ∧ b.accepted u t v := by
  obtain ⟨Q', hQ', hacc⟩ := h
  obtain ⟨u, hu, huQ, huQ'⟩ := hQ.exists_common hQ'
  refine ⟨u, huQ, hu, (hacc u huQ' hu).resolve_right ?_⟩
  exact not_le.2 (hpast u huQ hu)

/-- A rival of a chosen value is choosable in no ballot that proposed it. -/
theorem Chosen.not_choosable_rival (hd : b.Disciplined slot proposed) (h : b.Chosen t v)
    (hp : proposed t' v') (hslot : slot v' = slot v) (hne : v' ≠ v) : ¬ b.Choosable t' v' := by
  obtain ⟨u, hu⟩ := h.exists_accepted
  have hpv := hd.origin hu
  intro hc
  rcases lt_trichotomy t' t with hlt | rfl | hgt
  · exact hd.safe hpv t' hlt v' hslot hne hc
  · exact hne (hd.one hp hpv hslot)
  · exact hd.safe hp t hgt v hslot.symm (Ne.symm hne) h.choosable

end

end Ballots
