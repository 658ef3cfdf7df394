/-
  Shardlite.Query.SetOps

  UNION, INTERSECT and EXCEPT over branches that were each fanned out on their own.  Every
  operator is one pass over its left side, with what remains of the right side's counts as a
  budget and a set of the rows seen.  Where values can be compared, how often a row comes out
  depends only on how often it goes in.
-/
import Shardlite.Query.Merge

namespace Shardlite.Query

open Storage (Value)

inductive SetKind where
  | union
  | intersect
  | except
deriving DecidableEq

/-- A tree of set operations over branches. -/
inductive SetTree where
  | leaf (i : Nat)
  | op (kind : SetKind) (all : Bool) (left right : SetTree)

/-! ## Evaluating a tree -/

/-- Rows that a set operation counts as one. -/
def sameRow (a b : Row) : Bool := groupKeyCmp a b = .eq

/-- A map from rows, looked up by comparing. -/
abbrev Counts := Row → Option Nat

def Counts.set (counts : Counts) (row : Row) (n : Nat) : Counts :=
  fun key => if sameRow key row then some n else counts key

def countRow (counts : Counts) (row : Row) : Counts :=
  counts.set row ((counts row).getD 0 + 1)

def rowCounts (rows : List Row) : Counts := rows.foldl countRow fun _ => none

def intersectRows (all : Bool) : Counts → List Row → List Row → List Row
  | _, _, [] => []
  | budget, seen, row :: rows =>
    if all then
      match budget row with
      | some (remaining + 1) => row :: intersectRows all (budget.set row remaining) seen rows
      | _ => intersectRows all budget seen rows
    else if (budget row).isSome && !seen.any (sameRow row) then
      row :: intersectRows all budget (row :: seen) rows
    else intersectRows all budget seen rows

def exceptRows (all : Bool) : Counts → List Row → List Row → List Row
  | _, _, [] => []
  | budget, seen, row :: rows =>
    if all then
      match budget row with
      | some (remaining + 1) => exceptRows all (budget.set row remaining) seen rows
      | _ => row :: exceptRows all budget seen rows
    else if (budget row).isNone && !seen.any (sameRow row) then
      row :: exceptRows all budget (row :: seen) rows
    else exceptRows all budget seen rows

def applySetOp (op : SetKind) (all : Bool) (left right : List Row) : List Row :=
  match op with
  | .union => if all then left ++ right else dedupRows (left ++ right)
  | .intersect => intersectRows all (rowCounts right) [] left
  | .except => exceptRows all (rowCounts right) [] left

/-- A branch that is missing has no rows. -/
def evaluateSetTree (branches : List QueryResult) : SetTree → List Row
  | .leaf i => (branches[i]?.map QueryResult.rows).getD []
  | .op kind all left right =>
    applySetOp kind all (evaluateSetTree branches left) (evaluateSetTree branches right)

/-! ## What set operations mean -/

/-- How often a row occurs, up to comparing equal. -/
def multiplicity (rows : List Row) (row : Row) : Nat := rows.countP (sameRow row)

/-- The multiplicity of a row that is `m` times on the left and `n` times on the right. -/
def SetKind.law (op : SetKind) (all : Bool) (m n : Nat) : Nat :=
  match op, all with
  | .union, true => m + n
  | .union, false => if 0 < m ∨ 0 < n then 1 else 0
  | .intersect, true => min m n
  | .intersect, false => if 0 < m ∧ 0 < n then 1 else 0
  | .except, true => m - n
  | .except, false => if 0 < m ∧ n = 0 then 1 else 0

/-- How often SQL returns a row. -/
def SetTree.multiplicity (branches : List QueryResult) (row : Row) : SetTree → Nat
  | .leaf i => Query.multiplicity ((branches[i]?.map QueryResult.rows).getD []) row
  | .op kind all left right =>
    kind.law all (left.multiplicity branches row) (right.multiplicity branches row)

def RowOf (P : Value → Prop) (row : Row) : Prop := ∀ v ∈ row, P v

theorem multiplicity_cons (first : Row) (rows : List Row) (row : Row) :
    multiplicity (first :: rows) row = multiplicity rows row + if sameRow row first then 1 else 0 :=
  List.countP_cons

theorem multiplicity_append (rows rows' : List Row) (row : Row) :
    multiplicity (rows ++ rows') row = multiplicity rows row + multiplicity rows' row :=
  List.countP_append

/-! ## Comparing equal is an equivalence -/

theorem sameRow_iff {a b : Row} :
    sameRow a b = true ↔ List.Forall₂ (fun x y => compareValues x y = .eq) a b := by
  simp only [sameRow, groupKeyCmp, compareWholeRows, decide_eq_true_eq, Ordering.then_eq_eq,
    compare_eq_iff_eq]
  induction a generalizing b with
  | nil =>
    cases b with
    | nil => simp [compareColumns]
    | cons y b => simp
  | cons x a ih =>
    cases b with
    | nil => simp
    | cons y b =>
      rw [List.forall₂_cons, ← ih, List.zip_cons_cons, compareColumns, Ordering.then_eq_eq,
        List.length_cons, List.length_cons, Nat.add_right_cancel_iff, and_assoc]

section Comparable

variable {P : Value → Prop}

theorem sameRow_symm (h : TotalOn P compareValues) {a b : Row} (ha : RowOf P a) (hb : RowOf P b)
    (hab : sameRow a b) : sameRow b a := by
  rw [sameRow_iff] at hab ⊢
  induction hab with
  | nil => exact .nil
  | cons hxy _ ih =>
    rw [RowOf, List.forall_mem_cons] at ha hb
    exact .cons (h.eq_symm ha.1 hb.1 hxy) (ih ha.2 hb.2)

theorem sameRow_trans (h : TotalOn P compareValues) {a b c : Row} (ha : RowOf P a)
    (hb : RowOf P b) (hc : RowOf P c) (hab : sameRow a b) (hbc : sameRow b c) : sameRow a c := by
  rw [sameRow_iff] at hab hbc ⊢
  induction hab generalizing c with
  | nil => exact hbc
  | cons hxy _ ih =>
    cases hbc with
    | cons hyz hrest =>
      rw [RowOf, List.forall_mem_cons] at ha hb hc
      refine .cons ?_ (ih ha.2 hb.2 hc.2 hrest)
      rw [h.congr_left ha.1 hb.1 hc.1 hxy]
      exact hyz

theorem sameRow_congr (h : TotalOn P compareValues) {a b c : Row} (ha : RowOf P a)
    (hb : RowOf P b) (hc : RowOf P c) (hab : sameRow a b) : sameRow a c = sameRow b c := by
  rw [Bool.eq_iff_iff]
  exact ⟨sameRow_trans h hb ha hc (sameRow_symm h ha hb hab), sameRow_trans h ha hb hc hab⟩

/-! ## Counts -/

/-- Rows that compare equal are one key of the map. -/
def Respects (P : Value → Prop) {β : Type} (f : Row → β) : Prop :=
  ∀ a b, RowOf P a → RowOf P b → sameRow a b → f a = f b

theorem Respects.set (h : TotalOn P compareValues) {counts : Counts} (hcounts : Respects P counts)
    {row : Row} (hrow : RowOf P row) (n : Nat) : Respects P (counts.set row n) := by
  intro a b ha hb hab
  rw [Counts.set, Counts.set, sameRow_congr h ha hb hrow hab, hcounts a b ha hb hab]

theorem foldl_countRow (h : TotalOn P compareValues) {counts : Counts}
    (hcounts : Respects P counts) {rows : List Row} (hrows : ∀ row ∈ rows, RowOf P row) :
    Respects P (rows.foldl countRow counts) ∧ ∀ x, RowOf P x →
      rows.foldl countRow counts x = if multiplicity rows x = 0 then counts x
        else some ((counts x).getD 0 + multiplicity rows x) := by
  induction rows generalizing counts with
  | nil => exact ⟨hcounts, fun x _ => rfl⟩
  | cons row rows ih =>
    rw [List.forall_mem_cons] at hrows
    have hstep : Respects P (countRow counts row) := hcounts.set h hrows.1 _
    obtain ⟨hresp, hget⟩ := ih hstep hrows.2
    refine ⟨hresp, fun x hx => ?_⟩
    rw [List.foldl_cons, hget x hx, multiplicity_cons, countRow, Counts.set]
    by_cases hsame : sameRow x row = true
    · have hrow : counts row = counts x := (hcounts x row hx hrows.1 hsame).symm
      simp only [hsame, if_true, hrow, Option.getD_some, Nat.add_eq_zero_iff, one_ne_zero,
        and_false, if_false]
      split_ifs with hzero
      · rw [hzero, Nat.zero_add]
      · rw [Nat.add_assoc, Nat.add_comm 1]
    · simp [hsame]

theorem rowCounts_spec (h : TotalOn P compareValues) {rows : List Row}
    (hrows : ∀ row ∈ rows, RowOf P row) : Respects P (rowCounts rows) ∧ ∀ x, RowOf P x →
      rowCounts rows x = if multiplicity rows x = 0 then none else some (multiplicity rows x) := by
  obtain ⟨hresp, hget⟩ := @foldl_countRow P h (fun _ => none) (fun _ _ _ _ _ => rfl) rows hrows
  refine ⟨hresp, fun x hx => ?_⟩
  rw [rowCounts, hget x hx, Option.getD_none, Nat.zero_add]

/-! ## With ALL: the budget is spent row by row -/

theorem multiplicity_intersectAll (h : TotalOn P compareValues) {budget : Counts}
    (hbudget : Respects P budget) (seen : List Row) {rows : List Row}
    (hrows : ∀ row ∈ rows, RowOf P row) {x : Row} (hx : RowOf P x) :
    multiplicity (intersectRows true budget seen rows) x =
      min (multiplicity rows x) ((budget x).getD 0) := by
  induction rows generalizing budget with
  | nil => exact (Nat.zero_min _).symm
  | cons row rows ih =>
    rw [List.forall_mem_cons] at hrows
    rw [intersectRows, if_pos rfl, multiplicity_cons]
    by_cases hsame : sameRow x row = true
    · have hrow := hbudget x row hx hrows.1 hsame
      simp only [hsame, if_true, hrow]
      split
      next remaining heq =>
        rw [multiplicity_cons, ih (hbudget.set h hrows.1 _) hrows.2, Counts.set, heq]
        simp only [hsame, if_true, Option.getD_some]
        omega
      next hspent =>
        rw [ih hbudget hrows.2, hrow]
        -- nothing of the budget is left for this row
        have hzero : (budget row).getD 0 = 0 := by
          cases hcount : budget row with
          | none => rfl
          | some n =>
            cases n with
            | zero => rfl
            | succ n => exact absurd hcount (hspent n)
        omega
    · simp only [hsame, if_false, Nat.add_zero, Bool.false_eq_true]
      split
      next remaining _ =>
        rw [multiplicity_cons, ih (hbudget.set h hrows.1 _) hrows.2, Counts.set]
        simp [hsame]
      next => exact ih hbudget hrows.2

/-- Each row of the left goes either to the one operator or to the other. -/
theorem multiplicity_intersect_add_except (budget : Counts) (seen rows : List Row) (x : Row) :
    multiplicity (intersectRows true budget seen rows) x +
      multiplicity (exceptRows true budget seen rows) x = multiplicity rows x := by
  induction rows generalizing budget with
  | nil => rfl
  | cons row rows ih =>
    rw [intersectRows, exceptRows, if_pos rfl, if_pos rfl, multiplicity_cons]
    split
    next remaining _ =>
      have hrest := ih (budget.set row remaining)
      rw [multiplicity_cons]
      omega
    next =>
      have hrest := ih budget
      rw [multiplicity_cons]
      omega

/-! ## Without ALL: every row once -/

theorem retainNew_cons (seen : List Row) (row : Row) (rows : List Row) :
    retainNew seen (row :: rows) = if !seen.any (sameRow row) then row :: retainNew (row :: seen) rows
      else retainNew seen rows := by
  have hany : (seen.any fun key => groupKeyCmp row key = .eq) = seen.any (sameRow row) := rfl
  rw [retainNew, hany]
  cases seen.any (sameRow row) <;> rfl

theorem intersectDistinct_eq (budget : Counts) (seen rows : List Row) :
    intersectRows false budget seen rows =
      retainNew seen (rows.filter fun row => (budget row).isSome) := by
  induction rows generalizing seen with
  | nil => rfl
  | cons row rows ih =>
    rw [intersectRows, if_neg Bool.false_ne_true, List.filter_cons, ih, ih]
    cases (budget row).isSome with
    | false => rfl
    | true => exact (retainNew_cons seen row _).symm

theorem exceptDistinct_eq (budget : Counts) (seen rows : List Row) :
    exceptRows false budget seen rows =
      retainNew seen (rows.filter fun row => (budget row).isNone) := by
  induction rows generalizing seen with
  | nil => rfl
  | cons row rows ih =>
    rw [exceptRows, if_neg Bool.false_ne_true, List.filter_cons, ih, ih]
    cases (budget row).isNone with
    | false => rfl
    | true => exact (retainNew_cons seen row _).symm

theorem multiplicity_filter {keep : Row → Bool} (hkeep : Respects P keep) {rows : List Row}
    (hrows : ∀ row ∈ rows, RowOf P row) {x : Row} (hx : RowOf P x) :
    multiplicity (rows.filter keep) x = if keep x then multiplicity rows x else 0 := by
  induction rows with
  | nil => simp [multiplicity]
  | cons row rows ih =>
    rw [List.forall_mem_cons] at hrows
    have hrest := ih hrows.2
    rw [List.filter_cons, multiplicity_cons]
    by_cases hsame : sameRow x row = true
    · rw [← hkeep x row hx hrows.1 hsame]
      split_ifs at hrest ⊢ with hkept
      · rw [multiplicity_cons, hrest, if_pos hsame]
      · exact hrest
    · split_ifs at hrest ⊢ <;> simp [multiplicity_cons, hsame, hrest]

theorem multiplicity_retainNew (h : TotalOn P compareValues) {seen rows : List Row}
    (hrows : ∀ row ∈ rows, RowOf P row) (hseen : ∀ row ∈ seen, RowOf P row) {x : Row}
    (hx : RowOf P x) : multiplicity (retainNew seen rows) x =
      if 0 < multiplicity rows x ∧ multiplicity seen x = 0 then 1 else 0 := by
  induction rows generalizing seen with
  | nil => rfl
  | cons row rows ih =>
    rw [List.forall_mem_cons] at hrows
    have hany : (!seen.any (sameRow row)) = true ↔ multiplicity seen row = 0 := by
      rw [multiplicity, List.countP_eq_zero, Bool.not_eq_true', List.any_eq_false]
    have hcongr : sameRow x row = true → multiplicity seen x = multiplicity seen row := by
      intro hsame
      apply List.countP_congr
      intro key hkey
      rw [sameRow_congr h hx hrows.1 (hseen key hkey) hsame]
    have hkept := ih hrows.2 (List.forall_mem_cons.2 ⟨hrows.1, hseen⟩)
    have hdropped := ih hrows.2 hseen
    rw [multiplicity_cons] at hkept ⊢
    rw [retainNew_cons, apply_ite (multiplicity · x), multiplicity_cons, hkept, hdropped]
    simp only [hany]
    by_cases hsame : sameRow x row = true
    · have hrow := hcongr hsame
      simp only [hsame, if_true, hrow]
      rcases Nat.eq_zero_or_pos (multiplicity seen row) with hzero | hpos
      · simp [hzero]
      · simp [hpos.ne']
    · simp [hsame]

theorem multiplicity_retainNew_filter (h : TotalOn P compareValues) {keep : Row → Bool}
    (hkeep : Respects P keep) {rows : List Row} (hrows : ∀ row ∈ rows, RowOf P row) {x : Row}
    (hx : RowOf P x) : multiplicity (retainNew [] (rows.filter keep)) x =
      if 0 < multiplicity rows x ∧ keep x then 1 else 0 := by
  rw [multiplicity_retainNew h (fun row hrow => hrows row (List.mem_of_mem_filter hrow))
    (by simp) hx, multiplicity_filter hkeep hrows hx]
  cases keep x <;> simp [multiplicity]

/-! ## The laws -/

theorem subset_intersectRows (all : Bool) (budget : Counts) (seen rows : List Row) :
    intersectRows all budget seen rows ⊆ rows := by
  induction rows generalizing budget seen with
  | nil => exact List.Subset.refl _
  | cons row rows ih =>
    rw [intersectRows]
    split_ifs
    · split
      · exact List.cons_subset_cons _ (ih _ _)
      · exact List.subset_cons_of_subset _ (ih _ _)
    · exact List.cons_subset_cons _ (ih _ _)
    · exact List.subset_cons_of_subset _ (ih _ _)

theorem subset_exceptRows (all : Bool) (budget : Counts) (seen rows : List Row) :
    exceptRows all budget seen rows ⊆ rows := by
  induction rows generalizing budget seen with
  | nil => exact List.Subset.refl _
  | cons row rows ih =>
    rw [exceptRows]
    split_ifs
    · split
      · exact List.subset_cons_of_subset _ (ih _ _)
      · exact List.cons_subset_cons _ (ih _ _)
    · exact List.cons_subset_cons _ (ih _ _)
    · exact List.subset_cons_of_subset _ (ih _ _)

theorem subset_applySetOp (kind : SetKind) (all : Bool) (left right : List Row) :
    applySetOp kind all left right ⊆ left ++ right := by
  cases kind with
  | union =>
    cases all with
    | false => exact (retainNew_sublist _ _).subset
    | true => exact List.Subset.refl _
  | intersect => exact List.subset_append_of_subset_left _ (subset_intersectRows _ _ _ _)
  | except => exact List.subset_append_of_subset_left _ (subset_exceptRows _ _ _ _)

/-- **What one operator does to the multiplicity of a row.** -/
theorem multiplicity_applySetOp (h : TotalOn P compareValues) (kind : SetKind) (all : Bool)
    {left right : List Row} (hleft : ∀ row ∈ left, RowOf P row)
    (hright : ∀ row ∈ right, RowOf P row) {x : Row} (hx : RowOf P x) :
    multiplicity (applySetOp kind all left right) x =
      kind.law all (multiplicity left x) (multiplicity right x) := by
  obtain ⟨hresp, hget⟩ := rowCounts_spec h hright
  have hbudget : ((rowCounts right x).getD 0) = multiplicity right x := by
    rw [hget x hx]
    split_ifs with hzero
    · exact hzero.symm
    · rfl
  have hinter := multiplicity_intersectAll h hresp [] hleft hx
  rw [hbudget] at hinter
  cases kind with
  | union =>
    cases all with
    | true => exact multiplicity_append left right x
    | false =>
      have hboth : ∀ row ∈ left ++ right, RowOf P row :=
        fun row hrow => (List.mem_append.1 hrow).elim (hleft row) (hright row)
      rw [applySetOp, if_neg Bool.false_ne_true, dedupRows, multiplicity_retainNew h hboth (by simp)
        hx, multiplicity_append, SetKind.law]
      simp [multiplicity]
  | intersect =>
    cases all with
    | true => exact hinter
    | false =>
      have hkeep : Respects P fun row => (rowCounts right row).isSome :=
        fun a b ha hb hab => congrArg Option.isSome (hresp a b ha hb hab)
      rw [applySetOp, intersectDistinct_eq, multiplicity_retainNew_filter h hkeep hleft hx, hget x hx,
        SetKind.law]
      split_ifs <;> simp_all
  | except =>
    cases all with
    | true =>
      have hsplit := multiplicity_intersect_add_except (rowCounts right) [] left x
      simp only [applySetOp, SetKind.law]
      omega
    | false =>
      have hkeep : Respects P fun row => (rowCounts right row).isNone :=
        fun a b ha hb hab => congrArg Option.isNone (hresp a b ha hb hab)
      rw [applySetOp, exceptDistinct_eq, multiplicity_retainNew_filter h hkeep hleft hx, hget x hx,
        SetKind.law]
      split_ifs <;> simp_all

theorem rowOf_evaluateSetTree {branches : List QueryResult}
    (hbranches : ∀ branch ∈ branches, ∀ row ∈ branch.rows, RowOf P row) (tree : SetTree) :
    ∀ row ∈ evaluateSetTree branches tree, RowOf P row := by
  induction tree with
  | leaf i =>
    intro row hrow
    rw [evaluateSetTree] at hrow
    cases hbranch : branches[i]? with
    | none => simp [hbranch] at hrow
    | some branch =>
      rw [hbranch] at hrow
      exact hbranches branch (List.mem_of_getElem? hbranch) row hrow
  | op kind all left right ihl ihr =>
    intro row hrow
    exact (List.mem_append.1 (subset_applySetOp kind all _ _ hrow)).elim (ihl row) (ihr row)

theorem multiplicity_evaluateSetTree (h : TotalOn P compareValues) {branches : List QueryResult}
    (hbranches : ∀ branch ∈ branches, ∀ row ∈ branch.rows, RowOf P row) (tree : SetTree) {x : Row}
    (hx : RowOf P x) :
    multiplicity (evaluateSetTree branches tree) x = tree.multiplicity branches x := by
  induction tree with
  | leaf i => rfl
  | op kind all left right ihl ihr =>
    rw [evaluateSetTree, multiplicity_applySetOp h kind all (rowOf_evaluateSetTree hbranches left)
      (rowOf_evaluateSetTree hbranches right) hx, ihl, ihr, SetTree.multiplicity]

end Comparable

/-- The same branches with their rows in another order. -/
def Reordered (branches branches' : List QueryResult) : Prop :=
  List.Forall₂ (fun a b => a.rows.Perm b.rows) branches branches'

theorem Reordered.rowOf {P : Value → Prop} {branches branches' : List QueryResult}
    (h : Reordered branches branches')
    (hbranches : ∀ branch ∈ branches, ∀ row ∈ branch.rows, RowOf P row) :
    ∀ branch ∈ branches', ∀ row ∈ branch.rows, RowOf P row := by
  induction h with
  | nil => exact hbranches
  | cons hperm _ ih =>
    rw [List.forall_mem_cons] at hbranches ⊢
    exact ⟨fun row hrow => hbranches.1 row (hperm.mem_iff.2 hrow), ih hbranches.2⟩

theorem SetTree.multiplicity_reordered {branches branches' : List QueryResult}
    (h : Reordered branches branches') (tree : SetTree) (x : Row) :
    tree.multiplicity branches x = tree.multiplicity branches' x := by
  induction tree with
  | leaf i =>
    have hrows : ((branches[i]?.map QueryResult.rows).getD []).Perm
        ((branches'[i]?.map QueryResult.rows).getD []) := by
      induction h generalizing i with
      | nil => exact .refl _
      | cons hperm _ ih =>
        cases i with
        | zero => exact hperm
        | succ i => exact ih i
    exact hrows.countP_eq _
  | op kind all left right ihl ihr => simp only [SetTree.multiplicity, ihl, ihr]

/-- **Set operations are operations on multisets.**  Where the values present can be compared,
    the multiplicities of the branches determine those of the answer, operator by operator; so
    another order of a branch's rows gives the same rows in another order. -/
theorem evaluateSetTree_multiset (P : Value → Prop) (h : TotalOn P compareValues)
    (branches : List QueryResult) (hbranches : ∀ branch ∈ branches, ∀ row ∈ branch.rows, RowOf P row)
    (tree : SetTree) :
    (∀ x, RowOf P x →
      multiplicity (evaluateSetTree branches tree) x = tree.multiplicity branches x) ∧
    ∀ branches', Reordered branches branches' → ∀ x, RowOf P x →
      multiplicity (evaluateSetTree branches' tree) x =
        multiplicity (evaluateSetTree branches tree) x := by
  have hlaw : ∀ x, RowOf P x →
      multiplicity (evaluateSetTree branches tree) x = tree.multiplicity branches x :=
    fun x hx => multiplicity_evaluateSetTree h hbranches tree hx
  refine ⟨hlaw, fun branches' hre x hx => ?_⟩
  rw [hlaw x hx, multiplicity_evaluateSetTree h (hre.rowOf hbranches) tree hx,
    tree.multiplicity_reordered hre x]

/-- What is in both branches or in the first only: the number one is, as integer and float. -/
def eitherWay : SetTree :=
  .op .union false (.op .except true (.leaf 0) (.leaf 1)) (.op .intersect true (.leaf 0) (.leaf 1))

theorem evaluateSetTree_multiset_ones :
    multiplicity (evaluateSetTree onesAndOthersParts eitherWay) [.real 0x3FF0000000000000] = 1 := by
  have hvalues : ∀ branch ∈ onesAndOthersParts, ∀ row ∈ branch.rows,
      row ∈ onesAndOthers.flatten := by decide +kernel
  have hrows : ∀ branch ∈ onesAndOthersParts, ∀ row ∈ branch.rows, RowOf Representable row :=
    fun branch hbranch row hrow v hv =>
      representable_onesAndOthers v ⟨row, hvalues branch hbranch row hrow, hv⟩
  have hone : RowOf Representable [.real 0x3FF0000000000000] :=
    hrows ⟨["a"], [[.integer 2], [.real 0x3FF0000000000000]]⟩ (by simp [onesAndOthersParts]) _
      (by simp)
  have hlaw := (evaluateSetTree_multiset Representable totalOn_representable onesAndOthersParts hrows
    eitherWay).1 _ hone
  rw [hlaw]
  decide +kernel

end Shardlite.Query
