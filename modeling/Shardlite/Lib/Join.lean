/-
  Shardlite.Lib.Join

  Joining two lists on a condition, with or without the rows that match nothing, and
  doing it in pieces.

  `filter_joinOn`: the rows of a join that belong to a piece are the join of the two sides'
  rows that do, if no match is between pieces.
-/
import Mathlib

namespace Shardlite

structure JoinKind where
  keepsLeft : Bool
  keepsRight : Bool
  deriving DecidableEq, Repr

namespace JoinKind

def inner : JoinKind := ⟨false, false⟩
def left : JoinKind := ⟨true, false⟩
def right : JoinKind := ⟨false, true⟩
def full : JoinKind := ⟨true, true⟩

end JoinKind

variable {α β γ ι : Type*}

/-- The matches of two lists, then the rows of either side that match nothing. -/
def joinOn (kind : JoinKind) (on : α → β → Bool) (both : α → β → γ) (onlyLeft : α → γ)
    (onlyRight : β → γ) (as : List α) (bs : List β) : List γ :=
  as.flatMap (fun a => (bs.filter (on a)).map (both a)) ++
    ((if kind.keepsLeft then (as.filter fun a => !bs.any (on a)).map onlyLeft else []) ++
      if kind.keepsRight then (bs.filter fun b => !as.any (on · b)).map onlyRight else [])

section JoinOn

variable {kind : JoinKind} {on : α → β → Bool} {both : α → β → γ} {onlyLeft : α → γ}
  {onlyRight : β → γ} {as : List α} {bs : List β}
variable {p : α → Bool} {r : γ → Bool} {q : β → Bool}

theorem mem_joinOn_of_match {a : α} {b : β} (ha : a ∈ as) (hb : b ∈ bs) (hon : on a b = true) :
    both a b ∈ joinOn kind on both onlyLeft onlyRight as bs := by
  refine List.mem_append_left _ (List.mem_flatMap.2 ⟨a, ha, ?_⟩)
  exact List.mem_map_of_mem (List.mem_filter.2 ⟨hb, hon⟩)

theorem mem_joinOn {c : γ} (h : c ∈ joinOn kind on both onlyLeft onlyRight as bs) :
    (∃ a ∈ as, ∃ b ∈ bs, on a b = true ∧ c = both a b) ∨ (∃ a ∈ as, c = onlyLeft a) ∨
      ∃ b ∈ bs, c = onlyRight b := by
  rcases List.mem_append.1 h with h | h
  · obtain ⟨a, ha, hc⟩ := List.mem_flatMap.1 h
    obtain ⟨b, hb, rfl⟩ := List.mem_map.1 hc
    obtain ⟨hb, hon⟩ := List.mem_filter.1 hb
    exact .inl ⟨a, ha, b, hb, hon, rfl⟩
  rcases List.mem_append.1 h with h | h
  · split_ifs at h
    · obtain ⟨a, ha, rfl⟩ := List.mem_map.1 h
      exact .inr (.inl ⟨a, (List.mem_filter.1 ha).1, rfl⟩)
    · cases h
  · split_ifs at h
    · obtain ⟨b, hb, rfl⟩ := List.mem_map.1 h
      exact .inr (.inr ⟨b, (List.mem_filter.1 hb).1, rfl⟩)
    · cases h

theorem filter_flatMap {f g : α → List γ} (hin : ∀ a ∈ as, p a = true → (f a).filter r = g a)
    (hout : ∀ a ∈ as, p a = false → (f a).filter r = []) :
    (as.flatMap f).filter r = (as.filter p).flatMap g := by
  induction as with
  | nil => rfl
  | cons a as ih =>
    have htail := ih (fun x hx => hin x (List.mem_cons_of_mem _ hx))
      fun x hx => hout x (List.mem_cons_of_mem _ hx)
    rw [List.flatMap_cons, List.filter_append, htail]
    cases hp : p a with
    | true => rw [hin a List.mem_cons_self hp, List.filter_cons_of_pos hp, List.flatMap_cons]
    | false =>
      rw [hout a List.mem_cons_self hp, List.nil_append,
        List.filter_cons_of_neg (by rw [hp]; exact Bool.false_ne_true)]

/-- The rows of one side that match nothing, where a filter keeps all that a row of the
    piece matches. -/
theorem filter_unmatched {f : α → γ}
    (hmatch : ∀ a ∈ as, ∀ b ∈ bs, on a b = true → p a = q b) (hf : ∀ a ∈ as, r (f a) = p a) :
    ((as.filter fun a => !bs.any (on a)).map f).filter r =
      ((as.filter p).filter fun a => !(bs.filter q).any (on a)).map f := by
  rw [List.filter_map, List.filter_filter, List.filter_filter]
  congr 1
  refine List.filter_congr fun a ha => ?_
  rw [Function.comp_apply, hf a ha]
  cases hp : p a with
  | false => rw [Bool.false_and, Bool.and_false]
  | true =>
    have hany : (bs.filter q).any (on a) = bs.any (on a) := by
      rw [List.any_filter, Bool.eq_iff_iff, List.any_eq_true, List.any_eq_true]
      refine exists_congr fun b => and_congr_right fun hb => ?_
      refine ⟨fun h => (Bool.and_eq_true_iff.1 h).2, fun h => ?_⟩
      rw [h, ← hmatch a ha b hb h, hp, Bool.and_self]
    rw [hany, Bool.true_and, Bool.and_true]

/-- The rows of a join that belong to a piece, if no match is between pieces. -/
theorem filter_joinOn (hmatch : ∀ a ∈ as, ∀ b ∈ bs, on a b = true → p a = q b)
    (hboth : ∀ a ∈ as, ∀ b ∈ bs, on a b = true → r (both a b) = p a)
    (hleft : ∀ a ∈ as, r (onlyLeft a) = p a) (hright : ∀ b ∈ bs, r (onlyRight b) = q b) :
    (joinOn kind on both onlyLeft onlyRight as bs).filter r =
      joinOn kind on both onlyLeft onlyRight (as.filter p) (bs.filter q) := by
  have hmatches : (as.flatMap fun a => (bs.filter (on a)).map (both a)).filter r =
      (as.filter p).flatMap fun a => ((bs.filter q).filter (on a)).map (both a) := by
    refine filter_flatMap (fun a ha hp => ?_) fun a ha hp => ?_
    · rw [List.filter_map, List.filter_filter, List.filter_filter]
      congr 1
      refine List.filter_congr fun b hb => ?_
      cases hon : on a b with
      | false => rw [Bool.and_false, Bool.false_and]
      | true => rw [Function.comp_apply, hboth a ha b hb hon, ← hmatch a ha b hb hon, hp]
    · refine List.filter_eq_nil_iff.2 fun c hc => ?_
      obtain ⟨b, hb, rfl⟩ := List.mem_map.1 hc
      obtain ⟨hb, hon⟩ := List.mem_filter.1 hb
      rw [hboth a ha b hb hon, hp]
      exact Bool.false_ne_true
  have hlefts := filter_unmatched hmatch hleft
  have hrights : ((bs.filter fun b => !as.any (on · b)).map onlyRight).filter r =
      ((bs.filter q).filter fun b => !(as.filter p).any (on · b)).map onlyRight :=
    filter_unmatched (fun b hb a ha hon => (hmatch a ha b hb hon).symm) hright
  unfold joinOn
  rw [List.filter_append, List.filter_append, hmatches]
  congr 2
  · split_ifs
    · exact hlefts
    · rfl
  · split_ifs
    · exact hrights
    · rfl

end JoinOn

/-! ## Pieces -/

theorem flatMap_filter_perm [DecidableEq ι] {pieces : List ι} (hnodup : pieces.Nodup) (home : α → ι)
    (l : List α) (hhome : ∀ a ∈ l, home a ∈ pieces) :
    (pieces.flatMap fun i => l.filter fun a => home a = i).Perm l := by
  induction pieces generalizing l with
  | nil =>
    cases l with
    | nil => exact List.Perm.refl _
    | cons a l => exact absurd (hhome a List.mem_cons_self) List.not_mem_nil
  | cons i pieces ih =>
    obtain ⟨hi, hnodup⟩ := List.nodup_cons.1 hnodup
    have hrest : ∀ a ∈ l.filter (fun a => !decide (home a = i)), home a ∈ pieces := by
      intro a ha
      obtain ⟨ha, hne⟩ := List.mem_filter.1 ha
      refine (List.mem_cons.1 (hhome a ha)).resolve_left fun heq => ?_
      rw [heq, decide_eq_true rfl] at hne
      cases hne
    -- the later pieces have nothing of this one
    have hsame : (pieces.flatMap fun j => l.filter fun a => home a = j) =
        pieces.flatMap fun j =>
          (l.filter fun a => !decide (home a = i)).filter fun a => home a = j := by
      refine List.flatMap_congr fun j hj => ?_
      rw [List.filter_filter]
      refine List.filter_congr fun a _ => ?_
      by_cases hj' : home a = j
      · have hne : home a ≠ i := fun heq => hi (heq ▸ hj' ▸ hj)
        rw [decide_eq_true hj', decide_eq_false hne]
        rfl
      · rw [decide_eq_false hj', Bool.false_and]
    rw [List.flatMap_cons, hsame]
    refine ((ih hnodup _ hrest).append_left _).trans ?_
    exact List.filter_append_perm _ l

end Shardlite
