/-
  Shardlite.Lib.TopK

  The least `k` of a union from the least `k` of its parts.  What a part leaves out has `k`
  elements below it that the part sent, so leaving it out changes nothing; this holds with
  duplicates kept and with duplicates removed.

  Elements of any type are sorted and cut as the ranks that a total comparison gives them.
-/
import Shardlite.Lib.TotalOn

namespace TopK

/-! ## Sorted lists of a linear order -/

section Linear

variable {β : Type*} [LinearOrder β]

def sort (l : List β) : List β := l.mergeSort fun a b => decide (a ≤ b)

variable {x d : β} {s : List β}

theorem sort_perm (l : List β) : (sort l).Perm l := List.mergeSort_perm _ _

theorem pairwise_sort (l : List β) : (sort l).Pairwise (· ≤ ·) := by
  have h := @List.pairwise_mergeSort β (fun a b => decide (a ≤ b))
    (fun a b c hab hbc => decide_eq_true (le_trans (of_decide_eq_true hab) (of_decide_eq_true hbc)))
    (fun a b => by simpa using le_total a b) l
  exact h.imp of_decide_eq_true

theorem mem_sort {l : List β} : x ∈ sort l ↔ x ∈ l := (sort_perm l).mem_iff

theorem eq_sort {l : List β} (hperm : s.Perm l) (hsorted : s.Pairwise (· ≤ ·)) : s = sort l :=
  (hperm.trans (sort_perm l).symm).eq_of_pairwise' hsorted (pairwise_sort l)

theorem sort_congr {l l' : List β} (h : l.Perm l') : sort l = sort l' :=
  eq_sort ((sort_perm l).trans h) (pairwise_sort l)

/-- In a sorted list that has `k` elements up to `d`, the first `k` are such. -/
theorem le_of_mem_take (hs : s.Pairwise (· ≤ ·)) {k : Nat}
    (hk : k ≤ s.countP fun x => decide (x ≤ d)) : ∀ x ∈ s.take k, x ≤ d := by
  induction s generalizing k with
  | nil => simp
  | cons a s ih =>
    rw [List.pairwise_cons] at hs
    cases k with
    | zero => simp
    | succ k =>
      by_cases had : a ≤ d
      · rw [List.countP_cons_of_pos (by simpa using had)] at hk
        intro x hx
        rw [List.take_succ_cons, List.mem_cons] at hx
        rcases hx with rfl | hx
        · exact had
        · exact ih hs.2 (by omega) x hx
      · -- nothing after `a` is below it
        have hzero : (a :: s).countP (fun x => decide (x ≤ d)) = 0 := by
          rw [List.countP_eq_zero]
          intro x hx
          rcases List.mem_cons.1 hx with rfl | hx
          · simpa using had
          · have := hs.1 x hx
            simpa using lt_of_lt_of_le (not_le.1 had) this
        omega

/-- **What may be left out.**  Elements that have `k` of the others below them do not count among
    the least `k`. -/
theorem take_sort_append {kept left : List β} {k : Nat}
    (h : ∀ d ∈ left, k ≤ kept.countP fun x => decide (x ≤ d)) :
    (sort (kept ++ left)).take k = (sort kept).take k := by
  have hsplit : sort (kept ++ left) = (sort kept).take k ++ sort ((sort kept).drop k ++ left) := by
    symm
    apply eq_sort
    · have hrest := (sort_perm ((sort kept).drop k ++ left)).append_left ((sort kept).take k)
      rw [← List.append_assoc, List.take_append_drop] at hrest
      exact hrest.trans ((sort_perm kept).append_right left)
    · rw [List.pairwise_append]
      refine ⟨(pairwise_sort kept).sublist (List.take_sublist _ _), pairwise_sort _, ?_⟩
      intro x hx y hy
      rw [mem_sort, List.mem_append] at hy
      rcases hy with hy | hy
      · have hpair := pairwise_sort kept
        rw [← List.take_append_drop k (sort kept), List.pairwise_append] at hpair
        exact hpair.2.2 x hx y hy
      · apply le_of_mem_take (pairwise_sort kept) _ x hx
        rw [(sort_perm kept).countP_eq]
        exact h y hy
  rcases le_or_gt k (sort kept).length with hle | hgt
  · rw [hsplit, List.take_append_of_le_length (by rw [List.length_take]; omega), List.take_take,
      min_self]
  · have hnil : left = [] := by
      apply List.eq_nil_iff_forall_not_mem.2
      intro d hd
      have hcount := h d hd
      have hlen := List.countP_le_length (p := fun x => decide (x ≤ d)) (l := kept)
      rw [(sort_perm kept).length_eq] at hgt
      omega
    rw [hnil, List.append_nil]

/-! ## The least of the parts -/

def cutAt : Option Nat → List β → List β
  | none, l => l
  | some k, l => l.take k

def distinctly (distinct : Bool) (l : List β) : List β := if distinct then l.dedup else l

/-- The least elements, without duplicates or with them. -/
def top (distinct : Bool) (cut : Option Nat) (l : List β) : List β :=
  cutAt cut (sort (distinctly distinct l))

theorem le_countP_take {k : Nat} (hd : d ∈ (sort s).drop k) :
    k ≤ ((sort s).take k).countP fun x => decide (x ≤ d) := by
  have hlen : k < (sort s).length := by
    by_contra hle
    rw [List.drop_eq_nil_of_le (by omega)] at hd
    cases hd
  have hpair := pairwise_sort s
  rw [← List.take_append_drop k (sort s), List.pairwise_append] at hpair
  have hall : ((sort s).take k).countP (fun x => decide (x ≤ d)) = ((sort s).take k).length := by
    rw [List.countP_eq_length]
    intro x hx
    exact decide_eq_true (hpair.2.2 x hx d hd)
  rw [hall, List.length_take]
  omega

section Parts

variable (k : Nat) (parts : List (List β))

theorem perm_take_drop_flatten :
    ((parts.map fun s => (sort s).take k).flatten ++
      (parts.map fun s => (sort s).drop k).flatten).Perm parts.flatten := by
  induction parts with
  | nil => simp
  | cons s parts ih =>
    simp only [List.map_cons, List.flatten_cons]
    have hs : ((sort s).take k ++ (sort s).drop k).Perm s := by
      rw [List.take_append_drop]
      exact sort_perm s
    -- the dropped elements of the first part move to its taken ones
    have hmove : ((parts.map fun s => (sort s).take k).flatten ++ (sort s).drop k).Perm
        ((sort s).drop k ++ (parts.map fun s => (sort s).take k).flatten) :=
      List.perm_append_comm
    have hfront := (hmove.append_right (parts.map fun s => (sort s).drop k).flatten).append_left
      ((sort s).take k)
    have hrest := hs.append ih
    simp only [List.append_assoc] at hfront hrest ⊢
    exact hfront.trans hrest

theorem top_some_of_parts :
    top false (some k) (parts.map (top false (some k))).flatten = top false (some k) parts.flatten := by
  have hkept : (parts.map (top false (some k))) = parts.map fun s => (sort s).take k := rfl
  rw [hkept]
  simp only [top, distinctly, cutAt, Bool.false_eq_true, if_false]
  rw [← sort_congr (perm_take_drop_flatten k parts)]
  symm
  apply take_sort_append
  intro d hd
  obtain ⟨rest, hrest, hd⟩ := List.mem_flatten.1 hd
  obtain ⟨s, hs, rfl⟩ := List.mem_map.1 hrest
  apply (le_countP_take hd).trans
  apply List.Sublist.countP_le
  exact List.sublist_flatten_of_mem (List.mem_map.2 ⟨s, hs, rfl⟩)

theorem mem_flatten_of_mem_take (h : x ∈ (parts.map fun s => (sort s.dedup).take k).flatten) :
    x ∈ parts.flatten := by
  obtain ⟨kept, hkept, hx⟩ := List.mem_flatten.1 h
  obtain ⟨s, hs, rfl⟩ := List.mem_map.1 hkept
  have hmem := List.mem_of_mem_take hx
  rw [mem_sort, List.mem_dedup] at hmem
  exact List.mem_flatten.2 ⟨s, hs, hmem⟩

theorem top_some_of_distinct_parts :
    top true (some k) (parts.map (top true (some k))).flatten = top true (some k) parts.flatten := by
  simp only [top, distinctly, cutAt, if_true]
  have hsplit : ((parts.map fun s => (sort s.dedup).take k).flatten.dedup ++
      parts.flatten.dedup.filter fun x =>
        decide (x ∉ (parts.map fun s => (sort s.dedup).take k).flatten)).Perm
      parts.flatten.dedup := by
    apply (List.perm_ext_iff_of_nodup ?_ (List.nodup_dedup _)).2
    · intro x
      have hsub := mem_flatten_of_mem_take k parts (x := x)
      simp only [List.mem_append, List.mem_dedup, List.mem_filter, decide_eq_true_eq]
      by_cases hx : x ∈ (parts.map fun s => (sort s.dedup).take k).flatten
      · simp [hx, hsub hx]
      · simp [hx]
    · apply List.Nodup.append (List.nodup_dedup _) ((List.nodup_dedup _).filter _)
      intro x hx hx'
      rw [List.mem_filter, decide_eq_true_eq] at hx'
      exact hx'.2 (List.mem_dedup.1 hx)
  rw [← sort_congr hsplit]
  symm
  apply take_sort_append
  intro d hd
  rw [List.mem_filter, List.mem_dedup, decide_eq_true_eq] at hd
  obtain ⟨s, hs, hds⟩ := List.mem_flatten.1 hd.1
  have hrest : d ∈ (sort s.dedup).drop k := by
    have hmem : d ∈ (sort s.dedup).take k ++ (sort s.dedup).drop k := by
      rw [List.take_append_drop, mem_sort, List.mem_dedup]
      exact hds
    rcases List.mem_append.1 hmem with htake | hdrop
    · exact absurd (List.mem_flatten.2 ⟨_, List.mem_map.2 ⟨s, hs, rfl⟩, htake⟩) hd.2
    · exact hdrop
  apply (le_countP_take hrest).trans
  apply List.Subperm.countP_le
  apply List.Nodup.subperm
  · exact ((sort_perm _).nodup_iff.2 (List.nodup_dedup s)).sublist (List.take_sublist _ _)
  · intro x hx
    rw [List.mem_dedup]
    exact List.mem_flatten.2 ⟨_, List.mem_map.2 ⟨s, hs, rfl⟩, hx⟩

end Parts

theorem length_distinctly_le (distinct : Bool) (l : List β) :
    (sort (distinctly distinct l)).length ≤ l.length := by
  rw [(sort_perm _).length_eq]
  unfold distinctly
  split_ifs
  · exact (List.dedup_sublist l).length_le
  · exact le_rfl

theorem length_top_le (distinct : Bool) (cut : Option Nat) (l : List β) :
    (top distinct cut l).length ≤ l.length := by
  have hlen := length_distinctly_le distinct l
  cases cut with
  | none => exact hlen
  | some k => exact (List.take_sublist _ _).length_le.trans hlen

theorem top_none (distinct : Bool) {l : List β} {k : Nat} (h : l.length ≤ k) :
    top distinct none l = top distinct (some k) l := by
  have hlen := (length_distinctly_le distinct l).trans h
  exact (List.take_of_length_le hlen).symm

/-- **The least of a union are the least of what its parts send.** -/
theorem top_of_parts (distinct : Bool) (cut : Option Nat) (parts : List (List β)) :
    top distinct cut (parts.map (top distinct cut)).flatten = top distinct cut parts.flatten := by
  have hsome : ∀ k, top distinct (some k) (parts.map (top distinct (some k))).flatten =
      top distinct (some k) parts.flatten := by
    intro k
    cases distinct with
    | false => exact top_some_of_parts k parts
    | true => exact top_some_of_distinct_parts k parts
  cases cut with
  | some k => exact hsome k
  | none =>
    have hpart : ∀ s ∈ parts, top distinct none s = top distinct (some parts.flatten.length) s := by
      intro s hs
      exact top_none distinct (List.sublist_flatten_of_mem hs).length_le
    have hsent : (parts.map (top distinct none)).flatten.length ≤ parts.flatten.length := by
      rw [List.length_flatten, List.length_flatten, List.map_map]
      exact List.sum_le_sum fun s _ => length_top_le distinct none s
    rw [top_none distinct hsent, top_none distinct le_rfl, List.map_congr_left hpart]
    exact hsome _

end Linear

/-! ## Answers -/

section Answers

variable {α : Type*} (cmp : α → α → Ordering)

structure Representatives (l reps : List α) : Prop where
  mem : ∀ x ∈ reps, x ∈ l
  covers : ∀ x ∈ l, ∃ y ∈ reps, cmp x y = .eq
  apart : reps.Pairwise fun a b => cmp a b ≠ .eq

/-- The elements, one of each class if so asked. -/
def Chosen (distinct : Bool) (l chosen : List α) : Prop :=
  if distinct then Representatives cmp l chosen else chosen.Perm l

/-- What a query may answer: the elements chosen, sorted, and cut. -/
def Answer (distinct : Bool) (cut : Option Nat) (l answer : List α) : Prop :=
  ∃ chosen sorted, Chosen cmp distinct l chosen ∧ sorted.Perm chosen ∧
    sorted.Pairwise (fun a b => (cmp a b).isLE = true) ∧ answer = cutAt cut sorted

variable {cmp} {all l : List α} {distinct : Bool} {cut : Option Nat}
variable {x : α} {chosen answer whole : List α}

theorem pairwise_mergeSort (h : TotalOn (· ∈ all) cmp) (hall : ∀ x ∈ l, x ∈ all) :
    (l.mergeSort fun a b => (cmp a b).isLE).Pairwise fun a b => (cmp a b).isLE = true := by
  have hmap : (l.mergeSort fun a b => (cmp a b).isLE).map (TotalOn.rank cmp all) =
      sort (l.map (TotalOn.rank cmp all)) := by
    apply List.map_mergeSort
    intro a ha b hb
    rw [← h.compare_rank (hall a ha) (hall b hb), Bool.eq_iff_iff, Ordering.isLE_iff_ne_gt,
      decide_eq_true_iff]
    exact compare_le_iff_le
  have hsorted := pairwise_sort (l.map (TotalOn.rank cmp all))
  rw [← hmap, List.pairwise_map] at hsorted
  apply hsorted.imp_of_mem
  intro a b ha hb hle
  rw [List.mem_mergeSort] at ha hb
  rw [← h.compare_rank (hall a ha) (hall b hb), Ordering.isLE_iff_ne_gt]
  exact compare_le_iff_le.2 hle

theorem mem_of_mem_cutAt (h : x ∈ cutAt cut l) : x ∈ l := by
  cases cut with
  | none => exact h
  | some k => exact List.mem_of_mem_take h

theorem Chosen.mem (h : Chosen cmp distinct l chosen) (hx : x ∈ chosen) : x ∈ l := by
  cases distinct with
  | false => exact List.Perm.mem_iff h |>.1 hx
  | true => exact Representatives.mem h x hx

theorem Answer.mem (h : Answer cmp distinct cut l answer) (hx : x ∈ answer) : x ∈ l := by
  obtain ⟨chosen, sorted, hchosen, hperm, -, rfl⟩ := h
  exact hchosen.mem (hperm.mem_iff.1 (mem_of_mem_cutAt hx))

theorem Answer.truncated (h : Answer cmp distinct none l whole) (cut : Option Nat) :
    Answer cmp distinct cut l (cutAt cut whole) := by
  obtain ⟨chosen, sorted, hchosen, hperm, hsorted, heq⟩ := h
  exact ⟨chosen, sorted, hchosen, hperm, hsorted, congrArg (cutAt cut) heq⟩

theorem drop_cutAt (limit : Option Nat) (offset : Nat) (l : List α) :
    (cutAt (limit.map (· + offset)) l).drop offset = cutAt limit (l.drop offset) := by
  cases limit with
  | none => rfl
  | some n =>
    simp only [Option.map_some, cutAt, List.drop_take]
    rw [Nat.add_sub_cancel]

theorem Representatives.map_rank (h : TotalOn (· ∈ all) cmp) (hall : ∀ x ∈ l, x ∈ all)
    {reps : List α} (hreps : Representatives cmp l reps) :
    (reps.map (TotalOn.rank cmp all)).Perm (l.map (TotalOn.rank cmp all)).dedup := by
  have hmem : ∀ x ∈ reps, x ∈ all := fun x hx => hall x (hreps.mem x hx)
  apply (List.perm_ext_iff_of_nodup ?_ (List.nodup_dedup _)).2
  · intro r
    rw [List.mem_dedup, List.mem_map, List.mem_map]
    constructor
    · rintro ⟨x, hx, rfl⟩
      exact ⟨x, hreps.mem x hx, rfl⟩
    · rintro ⟨x, hx, rfl⟩
      obtain ⟨y, hy, hxy⟩ := hreps.covers x hx
      rw [← h.compare_rank (hall x hx) (hmem y hy), compare_eq_iff_eq] at hxy
      exact ⟨y, hy, hxy.symm⟩
  · rw [List.Nodup, List.pairwise_map]
    apply hreps.apart.imp_of_mem
    intro x y hx hy hne
    rwa [← h.compare_rank (hmem x hx) (hmem y hy), Ne, compare_eq_iff_eq] at hne

theorem Chosen.map_rank (h : TotalOn (· ∈ all) cmp) (hall : ∀ x ∈ l, x ∈ all)
    (hchosen : Chosen cmp distinct l chosen) :
    (chosen.map (TotalOn.rank cmp all)).Perm
      (distinctly distinct (l.map (TotalOn.rank cmp all))) := by
  cases distinct with
  | false => exact List.Perm.map _ hchosen
  | true => exact Representatives.map_rank h hall hchosen

theorem map_cutAt {γ : Type*} (f : α → γ) : (cutAt cut l).map f = cutAt cut (l.map f) := by
  cases cut with
  | none => rfl
  | some k => exact List.map_take

theorem Answer.map_rank (h : TotalOn (· ∈ all) cmp) (hall : ∀ x ∈ l, x ∈ all)
    (hanswer : Answer cmp distinct cut l answer) :
    answer.map (TotalOn.rank cmp all) = top distinct cut (l.map (TotalOn.rank cmp all)) := by
  obtain ⟨chosen, sorted, hchosen, hperm, hsorted, rfl⟩ := hanswer
  have hmem : ∀ x ∈ sorted, x ∈ all := fun x hx => hall x (hchosen.mem (hperm.mem_iff.1 hx))
  rw [map_cutAt, top]
  congr 1
  apply eq_sort ((hperm.map _).trans (hchosen.map_rank h hall))
  rw [List.pairwise_map]
  apply hsorted.imp_of_mem
  intro x y hx hy hle
  rw [← h.compare_rank (hmem x hx) (hmem y hy), Ordering.isLE_iff_ne_gt] at hle
  exact compare_le_iff_le.1 hle

/-- Lists of the same ranks are equal up to elements that compare equal. -/
theorem forall₂_of_map_rank (h : TotalOn (· ∈ all) cmp) {s t : List α} (hs : ∀ x ∈ s, x ∈ all)
    (ht : ∀ x ∈ t, x ∈ all)
    (heq : s.map (TotalOn.rank cmp all) = t.map (TotalOn.rank cmp all)) :
    List.Forall₂ (fun a b => cmp a b = .eq) s t := by
  induction s generalizing t with
  | nil =>
    cases t with
    | nil => exact .nil
    | cons b t => simp at heq
  | cons a s ih =>
    cases t with
    | nil => simp at heq
    | cons b t =>
      rw [List.map_cons, List.map_cons, List.cons.injEq] at heq
      rw [List.forall_mem_cons] at hs ht
      refine .cons ?_ (ih hs.2 ht.2 heq.2)
      rw [← h.compare_rank hs.1 ht.1, compare_eq_iff_eq]
      exact heq.1

theorem mem_of_mem_answers {parts answers : List (List α)}
    (hparts : List.Forall₂ (Answer cmp distinct cut) parts answers) :
    ∀ x ∈ answers.flatten, x ∈ parts.flatten := by
  induction hparts with
  | nil => simp
  | cons hpart _ ih =>
    intro x hx
    rw [List.flatten_cons, List.mem_append] at hx ⊢
    exact hx.imp hpart.mem (ih x)

theorem map_rank_answers (h : TotalOn (· ∈ all) cmp) {parts answers : List (List α)}
    (hall : ∀ x ∈ parts.flatten, x ∈ all)
    (hparts : List.Forall₂ (Answer cmp distinct cut) parts answers) :
    answers.flatten.map (TotalOn.rank cmp all) =
      ((parts.map (List.map (TotalOn.rank cmp all))).map (top distinct cut)).flatten := by
  induction hparts with
  | nil => rfl
  | cons hpart _ ih =>
    simp only [List.flatten_cons, List.forall_mem_append] at hall
    simp only [List.flatten_cons, List.map_cons, List.map_append]
    rw [hpart.map_rank h hall.1, ih hall.2]

/-- **Merging the answers of the parts answers the whole.** -/
theorem answer_of_parts {parts answers : List (List α)} (h : TotalOn (· ∈ parts.flatten) cmp)
    (hparts : List.Forall₂ (Answer cmp distinct cut) parts answers) {merged : List α}
    (hmerged : Answer cmp distinct cut answers.flatten merged)
    (hwhole : Answer cmp distinct cut parts.flatten whole) :
    List.Forall₂ (fun a b => cmp a b = .eq) merged whole := by
  have hsent := mem_of_mem_answers hparts
  apply forall₂_of_map_rank h
  · intro x hx
    exact hsent x (hmerged.mem hx)
  · intro x hx
    exact hwhole.mem hx
  · rw [hmerged.map_rank h hsent, hwhole.map_rank h fun x hx => hx,
      map_rank_answers h (fun x hx => hx) hparts, top_of_parts, List.map_flatten]

end Answers

end TopK
