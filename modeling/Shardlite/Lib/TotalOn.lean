/-
  Shardlite.Lib.TotalOn

  Comparisons that are total preorders on part of a type.  Such a comparison is comparing
  ranks among the elements at hand, and a walk that keeps the lesser of two finds a least one.
-/
import Mathlib

/-- A total preorder on the elements with `P`. -/
structure TotalOn {α : Type*} (P : α → Prop) (cmp : α → α → Ordering) : Prop where
  swap : ∀ a b, P a → P b → cmp b a = (cmp a b).swap
  trans : ∀ a b c, P a → P b → P c → (cmp a b).isLE = true → (cmp b c).isLE = true →
    (cmp a c).isLE = true

namespace TotalOn

variable {α γ : Type*} {P : α → Prop} {cmp cmp' : α → α → Ordering}
variable {a b : α}

theorem isLE_of_eq (h : cmp a b = .eq) : (cmp a b).isLE = true := by rw [h]; rfl

section

variable (h : TotalOn P cmp)

include h

variable {c : α}

theorem refl (ha : P a) : cmp a a = .eq := by
  have hswap := h.swap a a ha ha
  cases hcmp : cmp a a with
  | eq => rfl
  | lt | gt => rw [hcmp] at hswap; cases hswap

theorem eq_symm (ha : P a) (hb : P b) (heq : cmp a b = .eq) :
    cmp b a = .eq := by
  rw [h.swap a b ha hb, heq]
  rfl

theorem isLE_swap (ha : P a) (hb : P b) :
    (cmp b a).isLE = true ↔ cmp a b ≠ .lt := by
  rw [h.swap a b ha hb]
  cases cmp a b <;> simp

theorem lt_of_lt_of_le (ha : P a) (hb : P b) (hc : P c)
    (hab : cmp a b = .lt) (hbc : (cmp b c).isLE = true) : cmp a c = .lt := by
  by_contra hne
  have hca := (h.isLE_swap ha hc).2 hne
  have hba := h.trans b c a hb hc ha hbc hca
  exact (h.isLE_swap ha hb).1 hba hab

theorem lt_of_le_of_lt (ha : P a) (hb : P b) (hc : P c)
    (hab : (cmp a b).isLE = true) (hbc : cmp b c = .lt) : cmp a c = .lt := by
  by_contra hne
  have hca := (h.isLE_swap ha hc).2 hne
  have hcb := h.trans c a b hc ha hb hca hab
  exact (h.isLE_swap hb hc).1 hcb hbc

theorem congr_left (ha : P a) (hb : P b) (hc : P c) (hab : cmp a b = .eq) : cmp a c = cmp b c := by
  have hle := isLE_of_eq hab
  have hge := isLE_of_eq (h.eq_symm ha hb hab)
  cases hbc : cmp b c with
  | lt => exact h.lt_of_le_of_lt ha hb hc hle hbc
  | gt =>
    have hcb : cmp c b = .lt := by
      rw [h.swap b c hb hc, hbc]
      rfl
    rw [h.swap c a hc ha, h.lt_of_lt_of_le hc hb ha hcb hge]
    rfl
  | eq =>
    have hac := h.trans a b c ha hb hc hle (isLE_of_eq hbc)
    have hca := h.trans c b a hc hb ha (isLE_of_eq (h.eq_symm hb hc hbc)) hge
    rw [h.swap a c ha hc] at hca
    cases hcmp : cmp a c with
    | eq => rfl
    | lt => rw [hcmp] at hca; cases hca
    | gt => rw [hcmp] at hac; cases hac

theorem mono {Q : α → Prop} (hsub : ∀ a, Q a → P a) : TotalOn Q cmp :=
  ⟨fun a b ha hb => h.swap a b (hsub a ha) (hsub b hb),
    fun a b c ha hb hc => h.trans a b c (hsub a ha) (hsub b hb) (hsub c hc)⟩

theorem comap (f : γ → α) :
    TotalOn (fun x => P (f x)) fun x y => cmp (f x) (f y) :=
  ⟨fun a b => h.swap (f a) (f b), fun a b c => h.trans (f a) (f b) (f c)⟩

end

theorem const : TotalOn P fun _ _ => .eq := ⟨fun _ _ _ _ => rfl, fun _ _ _ _ _ _ _ _ => rfl⟩

theorem reverse (h : TotalOn P cmp) : TotalOn P fun a b => (cmp a b).swap := by
  refine ⟨fun a b ha hb => ?_, fun a b c ha hb hc hab hbc => ?_⟩
  · rw [h.swap a b ha hb]
  · rw [← h.swap a b ha hb] at hab
    rw [← h.swap b c hb hc] at hbc
    rw [← h.swap a c ha hc]
    exact h.trans c b a hc hb ha hbc hab

theorem isLE_then {o o' : Ordering} :
    (o.then o').isLE = true ↔ o = .lt ∨ (o = .eq ∧ o'.isLE = true) := by
  cases o <;> simp [Ordering.then]

theorem «then» (h : TotalOn P cmp) (h' : TotalOn P cmp') :
    TotalOn P fun a b => (cmp a b).then (cmp' a b) := by
  constructor
  · intro a b ha hb
    rw [h.swap a b ha hb, h'.swap a b ha hb, Ordering.swap_then]
  · intro a b c ha hb hc hab hbc
    rw [isLE_then] at hab hbc ⊢
    rcases hab with hab | ⟨hab, hab'⟩
    · -- the first comparison decides already between `a` and `b`
      left
      apply h.lt_of_lt_of_le ha hb hc hab
      rcases hbc with hbc | ⟨hbc, -⟩
      · rw [hbc]
        rfl
      · exact isLE_of_eq hbc
    · rw [h.congr_left ha hb hc hab]
      rcases hbc with hbc | ⟨hbc, hbc'⟩
      · exact .inl hbc
      · exact .inr ⟨hbc, h'.trans a b c ha hb hc hab' hbc'⟩

theorem of_linearOrder [LinearOrder γ] : TotalOn (fun _ : γ => True) compare := by
  constructor
  · intro a b _ _
    exact Std.OrientedCmp.eq_swap
  · intro a b c _ _ _ hab hbc
    exact Std.TransCmp.isLE_trans hab hbc

theorem congr (h : TotalOn P cmp) (heq : ∀ a b, P a → P b → cmp' a b = cmp a b) :
    TotalOn P cmp' := by
  constructor
  · intro a b ha hb
    rw [heq a b ha hb, heq b a hb ha, h.swap a b ha hb]
  · intro a b c ha hb hc hab hbc
    rw [heq a b ha hb] at hab
    rw [heq b c hb hc] at hbc
    rw [heq a c ha hc]
    exact h.trans a b c ha hb hc hab hbc

/-! ### Ranks -/

/-- How many of the elements are before this one. -/
def rank (cmp : α → α → Ordering) (all : List α) (a : α) : Nat :=
  all.countP fun x => decide (cmp x a = .lt)

theorem countP_lt {l : List α} {p q : α → Bool} (ha : a ∈ l) (hp : p a = false)
    (hq : q a = true) (hpq : ∀ x ∈ l, p x = true → q x = true) : l.countP p < l.countP q := by
  obtain ⟨before, after, rfl⟩ := List.append_of_mem ha
  have hbefore : before.countP p ≤ before.countP q :=
    List.countP_mono_left fun x hx => hpq x (List.mem_append_left _ hx)
  have hafter : after.countP p ≤ after.countP q :=
    List.countP_mono_left fun x hx =>
      hpq x (List.mem_append_right _ (List.mem_cons_of_mem _ hx))
  rw [List.countP_append, List.countP_append, List.countP_cons_of_neg (by simp [hp]),
    List.countP_cons_of_pos hq]
  omega

/-- **Comparing is comparing ranks.** -/
theorem compare_rank {all : List α} (h : TotalOn (· ∈ all) cmp) (ha : a ∈ all)
    (hb : b ∈ all) : compare (rank cmp all a) (rank cmp all b) = cmp a b := by
  -- a lower element has fewer before it, since it is itself before the other
  have hlt : ∀ {a b : α}, a ∈ all → b ∈ all → cmp a b = .lt → rank cmp all a < rank cmp all b := by
    intro a b ha hb hab
    have hmono : ∀ x ∈ all, cmp x a = .lt → cmp x b = .lt := by
      intro x hx hxa
      exact h.lt_of_lt_of_le hx ha hb hxa (by rw [hab]; rfl)
    have hself : cmp a a ≠ .lt := by
      rw [h.refl ha]
      decide
    exact countP_lt ha (by simpa using hself) (by simpa using hab) (by simpa using hmono)
  cases hab : cmp a b with
  | lt => exact compare_lt_iff_lt.2 (hlt ha hb hab)
  | gt =>
    have hba : cmp b a = .lt := by
      rw [h.swap a b ha hb, hab]
      rfl
    exact compare_gt_iff_gt.2 (hlt hb ha hba)
  | eq =>
    apply compare_eq_iff_eq.2
    apply List.countP_congr
    intro x hx
    have hsame := h.congr_left ha hb hx hab
    simp only [decide_eq_true_eq]
    rw [h.swap a x ha hx, h.swap b x hb hx, hsame]

end TotalOn

/-! ## Least and greatest elements -/

section Selection

variable {α : Type*} (cmp : α → α → Ordering)

/-- The first of the least elements, as `Iterator::min_by`. -/
def minBy : List α → Option α
  | [] => none
  | x :: xs => some (xs.foldl (fun least y => if cmp least y = .gt then y else least) x)

/-- The last of the greatest elements, as `Iterator::max_by`. -/
def maxBy : List α → Option α
  | [] => none
  | x :: xs => some (xs.foldl (fun greatest y => if cmp greatest y = .gt then greatest else y) x)

variable {cmp} {P : α → Prop}

def Picks (P : α → Prop) (cmp : α → α → Ordering) (pick : α → α → α) : Prop :=
  ∀ a b, P a → P b → (pick a b = a ∧ (cmp a b).isLE = true) ∨ (pick a b = b ∧ (cmp b a).isLE = true)

variable {l : List α} {m : α}

/-- Keeping the lesser along a list finds an element not above any. -/
theorem foldl_pick (h : TotalOn P cmp) {pick : α → α → α} (hpick : Picks P cmp pick) {xs : List α}
    (hxs : ∀ x ∈ xs, P x) {x : α} (hx : P x) :
    xs.foldl pick x ∈ x :: xs ∧ ∀ y ∈ x :: xs, (cmp (xs.foldl pick x) y).isLE = true := by
  induction xs generalizing x with
  | nil =>
    simp only [List.foldl_nil, List.mem_singleton, true_and, forall_eq]
    exact TotalOn.isLE_of_eq (h.refl hx)
  | cons y xs ih =>
    rw [List.forall_mem_cons] at hxs
    rw [List.foldl_cons]
    -- what goes on is one of the first two, and not above the other
    rcases hpick x y hx hxs.1 with ⟨heq, hxy⟩ | ⟨heq, hyx⟩
    · rw [heq]
      obtain ⟨hmem, hle⟩ := ih hxs.2 hx
      have hP : P (xs.foldl pick x) :=
        (List.forall_mem_cons.2 ⟨hx, hxs.2⟩ : ∀ z ∈ x :: xs, P z) _ hmem
      rw [List.forall_mem_cons] at hle
      have hy := h.trans _ x y hP hx hxs.1 hle.1 hxy
      refine ⟨?_, List.forall_mem_cons.2 ⟨hle.1, List.forall_mem_cons.2 ⟨hy, hle.2⟩⟩⟩
      rw [List.mem_cons] at hmem ⊢
      exact hmem.imp_right (List.mem_cons_of_mem _)
    · rw [heq]
      obtain ⟨hmem, hle⟩ := ih hxs.2 hxs.1
      have hP : P (xs.foldl pick y) :=
        (List.forall_mem_cons.2 hxs : ∀ z ∈ y :: xs, P z) _ hmem
      have hx' := h.trans _ y x hP hxs.1 hx (hle y List.mem_cons_self) hyx
      exact ⟨List.mem_cons_of_mem _ hmem, List.forall_mem_cons.2 ⟨hx', hle⟩⟩

theorem minBy_eq_some (h : TotalOn P cmp) (hl : ∀ x ∈ l, P x) (hm : minBy cmp l = some m) :
    m ∈ l ∧ ∀ x ∈ l, (cmp m x).isLE = true := by
  have hpick : Picks P cmp fun least y => if cmp least y = .gt then y else least := by
    intro a b ha hb
    by_cases hgt : cmp a b = .gt
    · exact .inr ⟨if_pos hgt, by rw [h.swap a b ha hb, hgt]; rfl⟩
    · exact .inl ⟨if_neg hgt, Ordering.isLE_iff_ne_gt.2 hgt⟩
  cases l with
  | nil => cases hm
  | cons x xs =>
    rw [List.forall_mem_cons] at hl
    cases hm
    exact foldl_pick h hpick hl.2 hl.1

theorem maxBy_eq_some (h : TotalOn P cmp) (hl : ∀ x ∈ l, P x) (hm : maxBy cmp l = some m) :
    m ∈ l ∧ ∀ x ∈ l, (cmp x m).isLE = true := by
  have hpick : Picks P (fun a b => (cmp a b).swap)
      fun greatest y => if cmp greatest y = .gt then greatest else y := by
    intro a b ha hb
    by_cases hgt : cmp a b = .gt
    · have hle : (cmp a b).swap.isLE = true := by
        rw [hgt]
        rfl
      exact .inl ⟨if_pos hgt, hle⟩
    · have hle : (cmp b a).swap.isLE = true := by
        rw [← h.swap b a hb ha]
        exact Ordering.isLE_iff_ne_gt.2 hgt
      exact .inr ⟨if_neg hgt, hle⟩
  cases l with
  | nil => cases hm
  | cons x xs =>
    rw [List.forall_mem_cons] at hl
    cases hm
    obtain ⟨hmem, hle⟩ := foldl_pick h.reverse hpick hl.2 hl.1
    have hP := (List.forall_mem_cons.2 hl : ∀ z ∈ x :: xs, P z)
    refine ⟨hmem, fun y hy => ?_⟩
    rw [h.swap _ y (hP _ hmem) (hP y hy)]
    exact hle y hy

theorem minBy_isSome (cmp : α → α → Ordering) (hl : l ≠ []) :
    ∃ m, minBy cmp l = some m := by
  cases l with
  | nil => exact absurd rfl hl
  | cons x xs => exact ⟨_, rfl⟩

theorem maxBy_isSome (cmp : α → α → Ordering) (hl : l ≠ []) :
    ∃ m, maxBy cmp l = some m := by
  cases l with
  | nil => exact absurd rfl hl
  | cons x xs => exact ⟨_, rfl⟩

end Selection
