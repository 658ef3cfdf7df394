/-
  Shardlite.Lib.Dealing

  Items dealt one at a time to nodes of unequal capacity, each to the node with
  the least load at that moment and to the first one among equals.  The items of
  all nodes then come in one fixed order, by the load their node had and by
  node, so after any number of items it is known how many each node has: those
  that come before the next one dealt.
-/
import Shardlite.Lib.Balance

namespace Balance

open Function

section Dealing

variable {ι : Type*} [LinearOrder ι] (w : ι → Nat)

/-- When the item of `i` after `k` others comes: at the load `i` has then. -/
def turn (i : ι) (k : Nat) : ℚ ×ₗ ι := toLex ((k : ℚ) / w i, i)

/-- How many items of `i` come before the item of `d` after `k` others. -/
def share (d : ι) (k : Nat) (i : ι) : Nat :=
  if i < d then k * w i / w d + 1 else (k * w i + (w d - 1)) / w d

/-- No node of `E` comes before `d`. -/
def NextTurn (E : Finset ι) (c : ι → Nat) (d : ι) : Prop :=
  d ∈ E ∧ ∀ x ∈ E, turn w d (c d) ≤ turn w x (c x)

/-- Every item dealt comes before every node's next one. -/
def Dealt (E : Finset ι) (c : ι → Nat) : Prop :=
  ∀ i ∈ E, ∀ x ∈ E, ∀ n < c i, turn w i n < turn w x (c x)

variable {w} {E : Finset ι} {c : ι → Nat} {d i : ι} {j k : Nat}

theorem turn_lt_iff (hi : 0 < w i) (hd : 0 < w d) :
    turn w i j < turn w d k ↔ j * w d < k * w i ∨ (j * w d = k * w i ∧ i < d) := by
  have hi' : (0 : ℚ) < w i := by exact_mod_cast hi
  have hd' : (0 : ℚ) < w d := by exact_mod_cast hd
  rw [turn, turn, Prod.Lex.toLex_lt_toLex, div_lt_div_iff₀ hi' hd', div_eq_div_iff hi'.ne' hd'.ne']
  norm_cast

theorem turn_le_iff (hi : 0 < w i) (hd : 0 < w d) :
    turn w i j ≤ turn w d k ↔ j * w d < k * w i ∨ (j * w d = k * w i ∧ i ≤ d) := by
  have hi' : (0 : ℚ) < w i := by exact_mod_cast hi
  have hd' : (0 : ℚ) < w d := by exact_mod_cast hd
  rw [turn, turn, Prod.Lex.toLex_le_toLex, div_lt_div_iff₀ hi' hd', div_eq_div_iff hi'.ne' hd'.ne']
  norm_cast

theorem turn_lt_turn (hi : 0 < w i) : turn w i j < turn w i k ↔ j < k := by
  rw [turn_lt_iff hi hi, Nat.mul_lt_mul_right hi]
  constructor
  · rintro (h | ⟨-, h⟩)
    · exact h
    · exact absurd h (lt_irrefl i)
  · exact .inl

theorem turn_le_turn (hi : 0 < w i) (h : j ≤ k) : turn w i j ≤ turn w i k :=
  not_lt.1 fun hlt => absurd ((turn_lt_turn hi).1 hlt) (not_lt.2 h)

omit [LinearOrder ι] in
theorem node_eq_of_turn_eq (h : turn w i j = turn w d k) : i = d :=
  congrArg (fun t => (ofLex t).2) h

theorem lt_share_iff (hi : 0 < w i) (hd : 0 < w d) :
    j < share w d k i ↔ turn w i j < turn w d k := by
  rw [turn_lt_iff hi hd, share]
  split_ifs with hlt
  · rw [Nat.lt_succ_iff, Nat.le_div_iff_mul_le hd, le_iff_lt_or_eq]
    simp only [hlt, and_true]
  · simp only [hlt, and_false, or_false]
    rw [← Nat.succ_le_iff, Nat.le_div_iff_mul_le hd, Nat.succ_mul]
    omega

theorem share_self (hd : 0 < w d) : share w d k d = k :=
  eq_of_forall_lt_iff fun j => by rw [lt_share_iff hd hd, turn_lt_turn hd]

/-! ## Dealing -/

theorem Dealt.zero : Dealt w E fun _ => 0 := fun _ _ _ _ _ h => absurd h (Nat.not_lt_zero _)

section

variable (hpos : ∀ x ∈ E, 0 < w x)

include hpos

variable {d' : ι} {k' : Nat}

/-- Step lemma: the next item goes to the node whose turn it is. -/
theorem Dealt.deal (h : Dealt w E c) (hd : NextTurn w E c d) :
    Dealt w E (update c d (c d + 1)) := by
  have hgrown : ∀ x, c x ≤ update c d (c d + 1) x := by
    intro x
    by_cases hx : x = d
    · subst hx
      rw [update_self]
      exact Nat.le_succ _
    · rw [update_of_ne hx]
  intro i hi x hx n hn
  have hlater := turn_le_turn (hpos x hx) (hgrown x)
  by_cases hold : n < c i
  · exact lt_of_lt_of_le (h i hi x hx n hold) hlater
  -- the new item, which is the last one of `d`
  have hid : i = d := by
    by_contra hne
    rw [update_of_ne hne] at hn
    exact hold hn
  subst hid
  rw [update_self] at hn
  obtain rfl : n = c i := by omega
  by_cases hxi : x = i
  · subst hxi
    rw [update_self]
    exact (turn_lt_turn (hpos x hx)).2 (Nat.lt_succ_self _)
  · rw [update_of_ne hxi]
    exact lt_of_le_of_ne (hd.2 x hx) fun heq => hxi (node_eq_of_turn_eq heq).symm

theorem Dealt.eq_share (h : Dealt w E c) (hd : NextTurn w E c d)
    (hi : i ∈ E) : c i = share w d (c d) i := by
  apply eq_of_forall_lt_iff
  intro j
  rw [lt_share_iff (hpos i hi) (hpos d hd.1)]
  constructor
  · exact h i hi d hd.1 j
  · intro hlt
    by_contra hge
    have hle := turn_le_turn (hpos i hi) (not_lt.1 hge)
    exact absurd hlt (not_lt.2 ((hd.2 i hi).trans hle))

theorem sum_share_lt (hd : d ∈ E) (hd' : d' ∈ E) (h : turn w d k < turn w d' k') :
    ∑ x ∈ E, share w d k x < ∑ x ∈ E, share w d' k' x := by
  apply Finset.sum_lt_sum
  · intro x hx
    by_contra hlt
    have hbefore := (lt_share_iff (hpos x hx) (hpos d hd)).1 (not_le.1 hlt)
    have hnot := mt (lt_share_iff (hpos x hx) (hpos d' hd')).2 (lt_irrefl (share w d' k' x))
    exact hnot (hbefore.trans h)
  · refine ⟨d, hd, ?_⟩
    rw [share_self (hpos d hd)]
    exact (lt_share_iff (hpos d hd) (hpos d' hd')).2 h

/-- Whose turn it is is known from the number of items dealt. -/
theorem turn_unique (hd : d ∈ E) (hd' : d' ∈ E)
    (h : ∑ x ∈ E, share w d k x = ∑ x ∈ E, share w d' k' x) : d = d' ∧ k = k' := by
  rcases lt_trichotomy (turn w d k) (turn w d' k') with hlt | heq | hgt
  · exact absurd h (sum_share_lt hpos hd hd' hlt).ne
  · obtain rfl := node_eq_of_turn_eq heq
    have hle : ¬k < k' := fun hlt => ((turn_lt_turn (hpos d hd)).2 hlt).ne heq
    have hge : ¬k' < k := fun hlt => ((turn_lt_turn (hpos d hd)).2 hlt).ne' heq
    exact ⟨rfl, by omega⟩
  · exact absurd h (sum_share_lt hpos hd' hd hgt).ne'

/-- Some move to the node whose turn it is would be useful, read off the weights
    and the number of items. -/
theorem Dealt.exists_useful_iff (h : Dealt w E c)
    (hd : NextTurn w E c d) :
    (∃ s ∈ E, Useful w c s d) ↔ ∃ d' ∈ E, ∃ k ≤ ∑ x ∈ E, c x,
      ∑ x ∈ E, share w d' k x = ∑ x ∈ E, c x ∧ ∃ s ∈ E, Useful w (share w d' k) s d' := by
  have hsum : ∑ x ∈ E, share w d (c d) x = ∑ x ∈ E, c x :=
    Finset.sum_congr rfl fun x hx => (h.eq_share hpos hd hx).symm
  have huseful : ∀ s ∈ E, Useful w c s d ↔ Useful w (share w d (c d)) s d := by
    intro s hs
    rw [Useful, Useful, share_self (hpos d hd.1), ← h.eq_share hpos hd hs]
  constructor
  · rintro ⟨s, hs, hmove⟩
    have hle : c d ≤ ∑ x ∈ E, c x := Finset.single_le_sum (fun _ _ => Nat.zero_le _) hd.1
    exact ⟨d, hd.1, c d, hle, hsum, s, hs, (huseful s hs).1 hmove⟩
  · rintro ⟨d', hd', k, -, hk, s, hs, hmove⟩
    obtain ⟨rfl, rfl⟩ := turn_unique hpos hd.1 hd' (hsum.trans hk.symm)
    exact ⟨s, hs, (huseful s hs).2 hmove⟩

end

end Dealing

end Balance
