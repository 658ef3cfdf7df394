/-
  Shardlite.Query.Aggregate

  The coordinator's half of COUNT, SUM, MIN, MAX and AVG: every shard answers with a partial
  value and the coordinator combines them.  Integer partials are added with the plain `+` of
  `i64`, and there is no error to answer with.  So a sum is right exactly if it fits in 64
  bits; a build that checks for overflow also needs every sum on the way to fit.

  A shard's own SUM is SQLite's: a parameter that is exact where it answers, and that may
  answer with an integer-overflow error instead.
-/
import Shardlite.Query.Merge

namespace Shardlite.Query

open Storage (Value)

/-- How the partial values of an aggregate become one. -/
inductive Combine where
  | sum
  | min
  | max
deriving DecidableEq

/-! ## Arithmetic of the coordinator -/

instance (x : Int) : Decidable (isI64 x) := inferInstanceAs (Decidable (_ ∧ _))

/-- `acc + x` on two `i64`.  On overflow a build that checks panics (`none`), and a release
    build wraps. -/
def addI64 (checked : Bool) (acc x : Int) : Option Int :=
  if checked then
    if isI64 (acc + x) then some (acc + x) else none
  else some ((acc + x).bmod (2 ^ 64))

/-- `Iterator::sum` over `i64`. -/
def sumI64 (checked : Bool) (xs : List Int) : Option Int := xs.foldlM (addI64 checked) 0

/-- `acc + x` on two `f64`, given by their bits. -/
def addF64 (acc x : UInt64) : UInt64 := (Float.ofBits acc + Float.ofBits x).toBits

/-- The start of `Iterator::sum` over `f64`, negative zero. -/
def sumStart : UInt64 := 0x8000000000000000

/-- `a / b` on two `f64`, given by their bits. -/
def divF64 (a b : UInt64) : UInt64 := (Float.ofBits a / Float.ofBits b).toBits

/-- The number in an integer value. -/
def asInteger : Value → Option Int
  | .integer i => some i
  | _ => none

/-- The numbers among the values. -/
def integers (values : List Value) : List Int := values.filterMap asInteger

/-- A value as `f64`; what is no number counts as zero. -/
def asReal : Value → UInt64
  | .integer i => Binary64.ofInt i
  | .real f => f
  | _ => 0

/-! ## Combining partial values -/

/-- `combine_values`; `none` is a panic. -/
def combineValues (checked : Bool) (combine : Combine) (values : List Value) : Option Value :=
  let present := values.filter fun v => !isNull v
  if present = [] then some .null
  else
    match combine with
    | .sum =>
      -- stays in integers if every part is one
      if present.all fun v => (asInteger v).isSome then
        (sumI64 checked (present.map fun v => (asInteger v).getD 0)).map Value.integer
      else some (.real ((present.map asReal).foldl addF64 sumStart))
    | .min => some ((minBy compareValues present).getD .null)
    | .max => some ((maxBy compareValues present).getD .null)

/-- What each shard answered: the first value of its first row. -/
def partials (parts : List QueryResult) : List Value :=
  parts.filterMap fun p => p.rows.head?.bind List.head?

/-- The aggregate branch of `merge_results`. -/
def mergeAggregate (checked : Bool) (combine : Combine) (columns : List String)
    (parts : List QueryResult) : Option QueryResult :=
  (combineValues checked combine (partials parts)).map fun value =>
    { columns
      rows := [[value]] }

/-- The partial counts of one group. -/
def counts (rows : List Row) (countCol : Nat) : List Int :=
  integers (rows.filterMap (·[countCol]?))

/-- The partial sums of one group over this count; nothing has no average. -/
def average (rows : List Row) (sumCol : Nat) (totalCount : Int) : Value :=
  let sums := (rows.filterMap (·[sumCol]?)).filter fun v =>
    match v with
    | .integer _ | .real _ => true
    | _ => false
  let totalSum := (sums.map asReal).foldl addF64 0
  if totalCount = 0 then .null else .real (divF64 totalSum (Binary64.ofInt totalCount))

/-- `avg_of`: the counts of the shards are added up like any integer partials. -/
def avgOf (checked : Bool) (rows : List Row) (sumCol countCol : Nat) : Option Value :=
  (sumI64 checked (counts rows countCol)).map (average rows sumCol)

/-! ## When the sum of integers is right -/

/-- The sum fits in 64 bits, and so do the sums on the way if the build checks them. -/
def Fits (checked : Bool) (xs : List Int) : Prop :=
  isI64 xs.sum ∧ (checked = true → ∀ n, isI64 (xs.take n).sum)

theorem foldlM_addI64_checked {a : Int} (ha : isI64 a) (xs : List Int) (b : Int) :
    xs.foldlM (addI64 true) a = some b ↔ b = a + xs.sum ∧ ∀ n, isI64 (a + (xs.take n).sum) := by
  induction xs generalizing a with
  | nil => simp [ha, eq_comm]
  | cons x xs ih =>
    rw [List.foldlM_cons, addI64, if_pos rfl]
    -- the prefixes of the list are the empty one and those that go on with its head
    have hprefixes : (∀ n, isI64 (a + ((x :: xs).take n).sum)) ↔
        ∀ n, isI64 (a + x + (xs.take n).sum) := by
      constructor
      · intro h n
        have hn := h (n + 1)
        rwa [List.take_succ_cons, List.sum_cons, ← add_assoc] at hn
      · rintro h (_ | n)
        · simpa using ha
        · rw [List.take_succ_cons, List.sum_cons, ← add_assoc]
          exact h n
    rw [hprefixes, List.sum_cons, ← add_assoc]
    by_cases hx : isI64 (a + x)
    · rw [if_pos hx, Option.bind_eq_bind, Option.bind_some, ih hx]
    · rw [if_neg hx, Option.bind_eq_bind, Option.bind_none]
      have hnot : ¬ ∀ n, isI64 (a + x + (xs.take n).sum) := fun h => hx (by simpa using h 0)
      simp [hnot]

theorem foldlM_addI64_wrapping (a : Int) (xs : List Int) :
    xs.foldlM (addI64 false) (a.bmod (2 ^ 64)) = some ((a + xs.sum).bmod (2 ^ 64)) := by
  induction xs generalizing a with
  | nil => simp
  | cons x xs ih =>
    have hstep : addI64 false (a.bmod (2 ^ 64)) x = some ((a + x).bmod (2 ^ 64)) := by
      rw [addI64, if_neg (by decide), Int.bmod_add_bmod]
    rw [List.foldlM_cons, hstep, Option.bind_eq_bind, Option.bind_some, ih, List.sum_cons,
      ← add_assoc]

theorem bmod_eq_self_iff (x : Int) : x.bmod (2 ^ 64) = x ↔ isI64 x := by
  rw [Int.bmod_eq_iff (by decide)]
  unfold isI64
  omega

theorem sumI64_wrapping (xs : List Int) : sumI64 false xs = some (xs.sum.bmod (2 ^ 64)) := by
  have h := foldlM_addI64_wrapping 0 xs
  rwa [zero_add] at h

theorem sumI64_eq_sum_iff (checked : Bool) (xs : List Int) :
    sumI64 checked xs = some xs.sum ↔ Fits checked xs := by
  cases checked with
  | false => rw [sumI64_wrapping, Option.some_inj, bmod_eq_self_iff]; simp [Fits]
  | true =>
    rw [sumI64, foldlM_addI64_checked (by decide)]
    simp only [zero_add, true_and, Fits, forall_const]
    constructor
    · intro h
      exact ⟨by simpa using h xs.length, h⟩
    · exact And.right

/-! ## Partials that are integers or NULL -/

/-- What a shard answers to COUNT, or to SUM over integers. -/
def isPartial (v : Value) : Bool := isNull v || (asInteger v).isSome

variable {values : List Value}

theorem integers_filter_present (h : ∀ v ∈ values, isPartial v) :
    (values.filter fun v => !isNull v).map (fun v => (asInteger v).getD 0) = integers values ∧
      (values.filter fun v => !isNull v).all fun v => (asInteger v).isSome := by
  induction values with
  | nil => exact ⟨rfl, rfl⟩
  | cons v values ih =>
    rw [List.forall_mem_cons] at h
    obtain ⟨hmap, hall⟩ := ih h.2
    cases v with
    | null => exact ⟨hmap, hall⟩
    | integer i => exact ⟨congrArg (i :: ·) hmap, hall⟩
    | real | text | blob => exact absurd h.1 Bool.false_ne_true

theorem combineValues_sum (checked : Bool) (h : ∀ v ∈ values, isPartial v) :
    combineValues checked .sum values = if integers values = [] then some .null
      else (sumI64 checked (integers values)).map Value.integer := by
  obtain ⟨hmap, hall⟩ := integers_filter_present h
  have hnil : (values.filter fun v => !isNull v) = [] ↔ integers values = [] := by
    rw [← hmap, List.map_eq_nil_iff]
  simp only [combineValues, hnil, hall, hmap, if_true]

/-! ## Shards over integer rows -/

/-- The SUM of a column of integers and NULLs, without bounds. -/
def exactSum (column : List Value) : Value :=
  if integers column = [] then .null else .integer (integers column).sum

/-- SQLite's SUM over integers and NULLs is exact whenever it answers; `none` is its
    integer-overflow error, which depends on the order of the rows. -/
def SumsExactly (sum : List Value → Option Value) : Prop :=
  ∀ column v, (∀ x ∈ column, isPartial x) → sum column = some v → v = exactSum column

/-- A shard's own COUNT of a column of integers and NULLs. -/
def shardCount (column : List Value) : Value := .integer (integers column).length

/-- If every shard answers, the partials are the exact sums. -/
theorem SumsExactly.partials_eq {sum : List Value → Option Value} (hsum : SumsExactly sum)
    {shards : List (List Value)} {values : List Value} (hpart : ∀ v ∈ shards.flatten, isPartial v)
    (h : shards.mapM sum = some values) : values = shards.map exactSum := by
  induction shards generalizing values with
  | nil =>
    obtain rfl := Option.some.inj h
    rfl
  | cons column shards ih =>
    rw [List.flatten_cons, List.forall_mem_append] at hpart
    rw [List.mapM_cons, Option.bind_eq_bind, Option.bind_eq_some_iff] at h
    obtain ⟨v, hv, h⟩ := h
    rw [Option.bind_eq_bind, Option.bind_eq_some_iff] at h
    obtain ⟨rest, hrest, h⟩ := h
    obtain rfl := Option.some.inj h
    rw [List.map_cons, hsum column v hpart.1 hv, ih hpart.2 hrest]

theorem integers_append (xs ys : List Value) : integers (xs ++ ys) = integers xs ++ integers ys :=
  List.filterMap_append

theorem sum_integers_exactSum (shards : List (List Value)) :
    (integers (shards.map exactSum)).sum = (integers shards.flatten).sum ∧
      (integers (shards.map exactSum) = [] ↔ integers shards.flatten = []) := by
  induction shards with
  | nil => exact ⟨rfl, Iff.rfl⟩
  | cons column shards ih =>
    rw [List.flatten_cons, integers_append, List.map_cons, exactSum]
    by_cases hcolumn : integers column = []
    · rw [if_pos hcolumn, hcolumn]
      exact ih
    · rw [if_neg hcolumn, List.sum_append, ← ih.1]
      exact ⟨rfl, by simp [integers, asInteger], by simp_all⟩

theorem integers_shardCount (shards : List (List Value)) :
    (integers (shards.map shardCount)).sum = (integers shards.flatten).length := by
  induction shards with
  | nil => rfl
  | cons column shards ih =>
    rw [List.flatten_cons, integers_append, List.length_append, Nat.cast_add, ← ih]
    rfl

theorem combineValues_congr {checked : Bool} {values' : List Value}
    (hpart : ∀ v ∈ values, isPartial v) (hpart' : ∀ v ∈ values', isPartial v)
    (hsum : (integers values).sum = (integers values').sum)
    (hnil : integers values = [] ↔ integers values' = []) (hfits : Fits checked (integers values))
    (hfits' : Fits checked (integers values')) :
    combineValues checked .sum values = combineValues checked .sum values' := by
  rw [combineValues_sum checked hpart, combineValues_sum checked hpart',
    (sumI64_eq_sum_iff checked _).2 hfits, (sumI64_eq_sum_iff checked _).2 hfits', hsum]
  simp only [hnil]

theorem isPartial_exactSum (shards : List (List Value)) :
    ∀ v ∈ shards.map exactSum, isPartial v := by
  intro v hv
  obtain ⟨column, -, rfl⟩ := List.mem_map.1 hv
  rw [exactSum]
  split_ifs <;> rfl

theorem isPartial_shardCount (shards : List (List Value)) :
    ∀ v ∈ shards.map shardCount, isPartial v := by
  intro v hv
  obtain ⟨column, -, rfl⟩ := List.mem_map.1 hv
  rfl

theorem integers_shardCount_eq_nil {shards : List (List Value)} (h : shards ≠ []) :
    integers (shards.map shardCount) ≠ [] := by
  cases shards with
  | nil => exact absurd rfl h
  | cons column shards => exact List.cons_ne_nil _ _

/-- The answer is the sum of the partials.  There is no error to answer with instead, so a
    total that does not fit has no right answer. -/
def Exact (total : Int) (merged : Option QueryResult) : Prop :=
  isI64 total ∧ merged.map QueryResult.rows = some [[.integer total]]

/-- **A merged SUM or COUNT is exact if and only if it fits in 64 bits**, as is the count that
    AVG divides by.  Then it does not depend on how the rows are split over the shards, if
    no shard answers with an overflow of its own. -/
theorem merged_exact_iff_fits (checked : Bool) :
    (∀ columns parts, (∀ v ∈ partials parts, isPartial v) → integers (partials parts) ≠ [] →
      (Exact (integers (partials parts)).sum (mergeAggregate checked .sum columns parts) ↔
        Fits checked (integers (partials parts)))) ∧
    (∀ rows sumCol countCol, ∃ total,
      avgOf checked rows sumCol countCol = total.map (average rows sumCol) ∧
        (total = some (counts rows countCol).sum ↔ Fits checked (counts rows countCol))) ∧
    ∀ sum, SumsExactly sum → ∀ shards shards' : List (List Value),
      shards.flatten.Perm shards'.flatten → (∀ v ∈ shards.flatten, isPartial v) →
      (∀ values values', shards.mapM sum = some values → shards'.mapM sum = some values' →
        Fits checked (integers values) → Fits checked (integers values') →
        combineValues checked .sum values = combineValues checked .sum values') ∧
      (shards ≠ [] → shards' ≠ [] → Fits checked (integers (shards.map shardCount)) →
        Fits checked (integers (shards'.map shardCount)) →
        combineValues checked .sum (shards.map shardCount) =
          combineValues checked .sum (shards'.map shardCount)) := by
  refine ⟨?_, ?_, ?_⟩
  · intro columns parts hpart hne
    have hmerged : (mergeAggregate checked .sum columns parts).map QueryResult.rows =
        (sumI64 checked (integers (partials parts))).map fun total => [[.integer total]] := by
      rw [mergeAggregate, combineValues_sum checked hpart, if_neg hne, Option.map_map,
        Option.map_map]
      rfl
    rw [Exact, hmerged, ← sumI64_eq_sum_iff]
    constructor
    · rintro ⟨-, h⟩
      obtain ⟨total, htotal, heq⟩ := Option.map_eq_some_iff.1 h
      simp only [List.cons.injEq, and_true, Value.integer.injEq] at heq
      rw [htotal, heq]
    · intro h
      exact ⟨((sumI64_eq_sum_iff checked _).1 h).1, by rw [h]; rfl⟩
  · intro rows sumCol countCol
    exact ⟨_, rfl, sumI64_eq_sum_iff checked _⟩
  · intro sum hexact shards shards' hperm hpart
    have hints : (integers shards.flatten).Perm (integers shards'.flatten) := hperm.filterMap _
    constructor
    · intro values values' hvalues hvalues' hfits hfits'
      obtain rfl := hexact.partials_eq hpart hvalues
      obtain rfl := hexact.partials_eq (fun v hv => hpart v (hperm.mem_iff.2 hv)) hvalues'
      obtain ⟨hsum, hnil⟩ := sum_integers_exactSum shards
      obtain ⟨hsum', hnil'⟩ := sum_integers_exactSum shards'
      apply combineValues_congr (isPartial_exactSum _) (isPartial_exactSum _) _ _ hfits hfits'
      · rw [hsum, hsum', hints.sum_eq]
      · rw [hnil, hnil', ← List.length_eq_zero_iff, hints.length_eq, List.length_eq_zero_iff]
    · intro hne hne' hfits hfits'
      apply combineValues_congr (isPartial_shardCount _) (isPartial_shardCount _) _ _ hfits hfits'
      · rw [integers_shardCount, integers_shardCount, hints.length_eq]
      · simp [integers_shardCount_eq_nil hne, integers_shardCount_eq_nil hne']

/-- What two shards answer to SUM. -/
def answers (values : List Value) : List QueryResult :=
  values.map fun v => { columns := ["SUM(c)"], rows := [[v]] }

/-- A SUM that answers if every sum on the way fits. -/
def sqliteSum (column : List Value) : Option Value :=
  if integers column = [] then some .null else (sumI64 true (integers column)).map .integer

theorem sqliteSum_exact : SumsExactly sqliteSum := by
  intro column v _ h
  rw [sqliteSum] at h
  rw [exactSum]
  split_ifs at h ⊢ with hnone
  · exact (Option.some.inj h).symm
  · obtain ⟨total, htotal, rfl⟩ := Option.map_eq_some_iff.1 h
    rw [((foldlM_addI64_checked (by decide) _ _).1 htotal).1, zero_add]

theorem merged_exact_iff_fits_two_shards :
    Exact 12 (mergeAggregate true .sum ["SUM(c)"] (answers [.integer 5, .null, .integer 7])) ∧
      combineValues true .sum [.integer 5, .null, .integer 7] =
        combineValues true .sum [.integer 12, .null] := by
  have hfits : Fits true [5, 7] := ⟨by decide, fun _ n => by
    rcases n with _ | _ | n <;> simp <;> decide⟩
  have hfits' : Fits true [12] := ⟨by decide, fun _ n => by rcases n with _ | n <;> simp <;> decide⟩
  have h := merged_exact_iff_fits true
  exact ⟨(h.1 ["SUM(c)"] (answers [.integer 5, .null, .integer 7]) (by decide) (by decide)).2 hfits,
    (h.2.2 sqliteSum sqliteSum_exact [[.integer 5, .null], [], [.integer 7]]
      [[.integer 7, .integer 5], [.null]] (by decide) (by decide)).1 _ _ (by decide) (by decide)
      hfits hfits'⟩

/-- Two shards whose sums fit and whose total does not: a release build wraps, a checked one
    panics.  The latter does so also when a third shard would bring the total back. -/
theorem merged_wraps :
    combineValues false .sum [.integer (2 ^ 63 - 1), .integer 1] = some (.integer (-2 ^ 63)) ∧
      combineValues true .sum [.integer (2 ^ 63 - 1), .integer 1] = none ∧
      combineValues true .sum [.integer (2 ^ 63 - 1), .integer 1, .integer (-1)] = none := by
  decide

end Shardlite.Query
