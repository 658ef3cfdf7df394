/-
  Shardlite.Lib.Balance

  Items on nodes of unequal capacity, moved one at a time.  The load of a node is its count
  over its weight; loads are compared crosswise, without fractions.  A move is useful if the
  receiver stays below the giver's present load.  Useful moves off a most loaded node end, and
  a node that gave an item away that way never gets one again.
-/
import Mathlib

namespace Balance

section Loads

variable {ι : Type*} (w : ι → Nat) (c : ι → Nat)

/-- With one item more, `b` would stay below the load of `a`. -/
def Useful (a b : ι) : Prop := (c b + 1) * w a < c a * w b

instance (a b : ι) : Decidable (Useful w c a b) := inferInstanceAs (Decidable (_ < _))

def Heaviest (E : Finset ι) (a : ι) : Prop := ∀ x ∈ E, c x * w a ≤ c a * w x

/-- With one item more, `a` would have the highest load of `E`. -/
def Settled (E : Finset ι) (a : ι) : Prop := ∀ x ∈ E, c x * w a ≤ (c a + 1) * w x

variable {w c} {E : Finset ι} {a b s d t : ι}

theorem Useful.ne (h : Useful w c a b) : a ≠ b := by
  rintro rfl
  have hle : c a * w a ≤ (c a + 1) * w a := Nat.mul_le_mul_right _ (Nat.le_succ _)
  exact absurd h (not_lt.2 hle)

theorem Useful.pos (h : Useful w c a b) : 0 < c a := by
  by_contra hzero
  have hca : c a = 0 := by omega
  unfold Useful at h
  rw [hca, Nat.zero_mul] at h
  exact absurd h (Nat.not_lt_zero _)

/-- What is useful off any node is useful off a heaviest one. -/
theorem Heaviest.useful (hs : Heaviest w c E s) (hws : 0 < w s) (ha : a ∈ E)
    (h : Useful w c a b) : Useful w c s b := by
  have hheavy := hs a ha
  unfold Useful at h ⊢
  apply lt_of_mul_lt_mul_right _ (Nat.zero_le (w a))
  calc (c b + 1) * w s * w a = (c b + 1) * w a * w s := by ring
    _ < c a * w b * w s := Nat.mul_lt_mul_of_pos_right h hws
    _ = c a * w s * w b := by ring
    _ ≤ c s * w a * w b := Nat.mul_le_mul_right _ hheavy
    _ = c s * w b * w a := by ring

/-- A receiver that is no more loaded than another and no lighter is as good as that one. -/
theorem Useful.of_heavier (h : Useful w c a b) (hwb : 0 < w b) (hload : c d * w b ≤ c b * w d)
    (hweight : w b ≤ w d) : Useful w c a d := by
  have hwd : 0 < w d := hwb.trans_le hweight
  unfold Useful at h ⊢
  apply lt_of_mul_lt_mul_right _ (Nat.zero_le (w b))
  calc (c d + 1) * w a * w b = (c d * w b + w b) * w a := by ring
    _ ≤ (c b * w d + w d) * w a := Nat.mul_le_mul_right _ (Nat.add_le_add hload hweight)
    _ = (c b + 1) * w a * w d := by ring
    _ < c a * w b * w d := Nat.mul_lt_mul_of_pos_right h hwd
    _ = c a * w d * w b := by ring

theorem Settled.ne_of_useful (ht : Settled w c E t) (hsE : s ∈ E) (h : Useful w c s d) : t ≠ d := by
  rintro rfl
  exact absurd h (not_lt.2 (ht s hsE))

end Loads

section Moves

variable {ι : Type*} [DecidableEq ι] {w : ι → Nat} (c : ι → Nat)

def move (a b : ι) : ι → Nat := Function.update (Function.update c a (c a - 1)) b (c b + 1)

variable {c} {E : Finset ι} {a b s d t : ι}

theorem move_to (a b : ι) : move c a b b = c b + 1 := by simp [move]

theorem move_off (h : a ≠ b) : move c a b a = c a - 1 := by simp [move, h]

theorem move_other {x : ι} (ha : x ≠ a) (hb : x ≠ b) : move c a b x = c x := by simp [move, ha, hb]

/-! ## Who gave does not get -/

/-- No load rises above the load that the heaviest node had. -/
theorem move_mul_le (hs : Heaviest w c E s) (h : Useful w c s d) {x : ι} (hx : x ∈ E) :
    move c s d x * w s ≤ c s * w x := by
  have hheavy := hs x hx
  by_cases hxd : x = d
  · rw [hxd, move_to]
    exact h.le
  · by_cases hxs : x = s
    · rw [hxs, move_off h.ne]
      exact Nat.mul_le_mul_right _ (Nat.sub_le _ _)
    · rw [move_other hxs hxd]
      exact hheavy

/-- A heaviest node that gave an item away would be heaviest again with it. -/
theorem settled_of_gave (hs : Heaviest w c E s) (h : Useful w c s d) :
    Settled w (move c s d) E s := by
  intro x hx
  have hpos := h.pos
  rw [move_off h.ne, Nat.sub_add_cancel hpos]
  exact move_mul_le hs h hx

theorem Settled.move (ht : Settled w c E t) (hs : Heaviest w c E s) (hsE : s ∈ E) (hws : 0 < w s)
    (h : Useful w c s d) : Settled w (move c s d) E t := by
  by_cases hts : t = s
  · rw [hts]
    exact settled_of_gave hs h
  · have htd := ht.ne_of_useful hsE h
    intro x hx
    have hle := move_mul_le hs h hx
    have hset := ht s hsE
    rw [move_other hts htd]
    -- both loads are compared with that of the giver before the move
    apply le_of_mul_le_mul_right _ hws
    calc Balance.move c s d x * w t * w s = Balance.move c s d x * w s * w t := by ring
      _ ≤ c s * w x * w t := Nat.mul_le_mul_right _ hle
      _ = c s * w t * w x := by ring
      _ ≤ (c t + 1) * w s * w x := Nat.mul_le_mul_right _ hset
      _ = (c t + 1) * w x * w s := by ring

/-! ## Moves end -/

/-- Sum of what each node's load would be item by item, over the product of all weights. -/
def potential (w c : ι → Nat) (E : Finset ι) : Nat :=
  ∑ x ∈ E, c x * (c x + 1) * ∏ y ∈ E.erase x, w y

theorem potential_mono {c' : ι → Nat} (h : ∀ x, c x ≤ c' x) :
    potential w c E ≤ potential w c' E := by
  apply Finset.sum_le_sum
  intro x _
  have hx := h x
  gcongr

/-- **A useful move lowers the potential.** -/
theorem potential_move_lt (hw : ∀ x ∈ E, 0 < w x) (hsE : s ∈ E) (hdE : d ∈ E)
    (h : Useful w c s d) : potential w (move c s d) E < potential w c E := by
  have hne := h.ne
  have hd : d ∈ E.erase s := Finset.mem_erase.2 ⟨hne.symm, hdE⟩
  have hs : s ∈ E.erase d := Finset.mem_erase.2 ⟨hne, hsE⟩
  -- the product of the weights of all nodes but the two
  have hprods : ∏ y ∈ E.erase s, w y = w d * ∏ y ∈ (E.erase s).erase d, w y :=
    (Finset.mul_prod_erase _ _ hd).symm
  have hprodd : ∏ y ∈ E.erase d, w y = w s * ∏ y ∈ (E.erase s).erase d, w y := by
    rw [Finset.erase_right_comm]
    exact (Finset.mul_prod_erase _ _ hs).symm
  have hrest : 0 < ∏ y ∈ (E.erase s).erase d, w y :=
    Finset.prod_pos fun y hy => hw y (Finset.mem_of_mem_erase (Finset.mem_of_mem_erase hy))
  have hsplit : ∀ c : ι → Nat, potential w c E =
      c s * (c s + 1) * ∏ y ∈ E.erase s, w y + (c d * (c d + 1) * ∏ y ∈ E.erase d, w y +
        ∑ x ∈ (E.erase s).erase d, c x * (c x + 1) * ∏ y ∈ E.erase x, w y) := by
    intro c
    rw [potential, ← Finset.add_sum_erase _ _ hsE, ← Finset.add_sum_erase _ _ hd]
  have hsame : ∑ x ∈ (E.erase s).erase d, move c s d x * (move c s d x + 1) * ∏ y ∈ E.erase x, w y =
      ∑ x ∈ (E.erase s).erase d, c x * (c x + 1) * ∏ y ∈ E.erase x, w y := by
    apply Finset.sum_congr rfl
    intro x hx
    rw [Finset.mem_erase, Finset.mem_erase] at hx
    rw [move_other hx.2.1 hx.1]
  rw [hsplit, hsplit c, hsame, hprods, hprodd, move_off hne, move_to]
  obtain ⟨n, hn⟩ : ∃ n, c s = n + 1 := ⟨c s - 1, by have := h.pos; omega⟩
  unfold Useful at h
  rw [hn] at h ⊢
  rw [Nat.add_sub_cancel]
  have hscaled := Nat.mul_lt_mul_of_pos_right h hrest
  linarith

end Moves

end Balance
