/-
  Shardlite.Query.Compare

  How the coordinator compares values: by storage class, numbers by value, text and blobs
  byte by byte.  An integer and a real are compared after the integer has been converted to
  a float.  So the comparison is exact, and a total order, over those values whose integers
  a float can represent, and over no more.
-/
import Shardlite.Storage.Statement
import Shardlite.Lib.Binary64

namespace Shardlite.Query

open Storage (Value)

/-- Storage classes in the order of `ORDER BY`. -/
def rank : Value → Nat
  | .null => 0
  | .integer _ | .real _ => 1
  | .text _ => 2
  | .blob _ => 3

/-- Numbers that cannot be compared count as equal. -/
def compareValues : Value → Value → Ordering
  | .integer x, .integer y => compare x y
  | .real x, .real y => (Binary64.partialCmp x y).getD .eq
  | .integer x, .real y => (Binary64.partialCmp (Binary64.ofInt x) y).getD .eq
  | .real x, .integer y => (Binary64.partialCmp x (Binary64.ofInt y)).getD .eq
  | .text x, .text y => compare x y
  | .blob x, .blob y => compare x y
  | a, b => compare (rank a) (rank b)

/-! ## What comparing should be -/

noncomputable def number : Value → Option EReal
  | .integer x => some ((x : ℝ) : EReal)
  | .real b => some (Binary64.toEReal b)
  | _ => none

/-- The integers that a value can hold. -/
def isI64 (x : Int) : Prop := -2 ^ 63 ≤ x ∧ x < 2 ^ 63

/-- The values with integers from `I`, and without NaN. -/
def Over (I : Set Int) : Value → Prop
  | .integer x => isI64 x ∧ x ∈ I
  | .real b => Binary64.isNaN b = false
  | _ => True

/-- On these values comparing is a total order up to its own equality, and right about numbers. -/
structure TotalOrder (P : Value → Prop) : Prop where
  swap : ∀ a b, P a → P b → compareValues b a = (compareValues a b).swap
  trans : ∀ a b c, P a → P b → P c → (compareValues a b).isLE = true →
    (compareValues b c).isLE = true → (compareValues a c).isLE = true
  exact : ∀ a b x y, P a → P b → number a = some x → number b = some y →
    compareValues a b = cmp x y

/-! ## Comparing by keys -/

def units : Value → Int
  | .integer x => x * Binary64.one
  | .real b => Binary64.scaled b
  | _ => 0

def textOf : Value → String
  | .text t => t
  | _ => ""

def blobOf : Value → List UInt8
  | .blob b => b
  | _ => []

/-- Storage class first, then what the class is compared by. -/
def compareKeys : Value → Value → Ordering :=
  compareLex (compareOn rank) (compareLex (compareOn units) (compareLex (compareOn textOf)
    (compareOn blobOf)))

def Representable : Value → Prop := Over {x | Binary64.Represented x}

variable {x : Int} {a b : Value}

theorem isI64.natAbs_lt (h : isI64 x) : x.natAbs < 2 ^ 64 := by
  unfold isI64 at h
  omega

theorem partialCmp_of_numbers {a b : UInt64} (ha : Binary64.isNaN a = false)
    (hb : Binary64.isNaN b = false) :
    (Binary64.partialCmp a b).getD .eq = compare (Binary64.scaled a) (Binary64.scaled b) := by
  rw [Binary64.partialCmp, ha, hb, if_neg (by simp), Option.getD_some]

theorem scaled_of_represented (h : isI64 x) (hx : Binary64.Represented x) :
    Binary64.scaled (Binary64.ofInt x) = x * Binary64.one := by
  rw [Binary64.scaled_ofInt h.natAbs_lt, (Binary64.roundInt_eq_iff h.natAbs_lt).2 hx]

theorem compare_units (x y : Int) :
    compare (x * Binary64.one) (y * Binary64.one) = compare x y := by
  have hpos : (0 : Int) < Binary64.one := Int.natCast_pos.2 Binary64.one_pos
  rcases lt_trichotomy x y with hlt | rfl | hgt
  · rw [compare_lt_iff_lt.2 hlt, compare_lt_iff_lt.2 (Int.mul_lt_mul_of_pos_right hlt hpos)]
  · rw [compare_eq_iff_eq.2 rfl, compare_eq_iff_eq.2 rfl]
  · rw [compare_gt_iff_gt.2 hgt, compare_gt_iff_gt.2 (Int.mul_lt_mul_of_pos_right hgt hpos)]

theorem compareValues_numbers (ha : Representable a) (hb : Representable b)
    (hra : rank a = 1) (hrb : rank b = 1) : compareValues a b = compare (units a) (units b) := by
  cases a with
  | null | text | blob => simp [rank] at hra
  | integer x =>
    cases b with
    | null | text | blob => simp [rank] at hrb
    | integer y => exact (compare_units x y).symm
    | real b =>
      rw [compareValues, partialCmp_of_numbers (Binary64.isNaN_ofInt ha.1.natAbs_lt) hb,
        scaled_of_represented ha.1 ha.2]
      rfl
  | real a =>
    cases b with
    | null | text | blob => simp [rank] at hrb
    | integer y =>
      rw [compareValues, partialCmp_of_numbers ha (Binary64.isNaN_ofInt hb.1.natAbs_lt),
        scaled_of_represented hb.1 hb.2]
      rfl
    | real b => exact partialCmp_of_numbers ha hb

theorem compareKeys_of_rank (h : rank a = rank b) :
    compareKeys a b = (compare (units a) (units b)).then ((compare (textOf a) (textOf b)).then
      (compare (blobOf a) (blobOf b))) := by
  simp only [compareKeys, compareLex, compareOn, h, compare_eq_iff_eq.2, Ordering.then]

theorem compareValues_of_numbers (ha : Representable a) (hb : Representable b)
    (hra : rank a = 1) (hrb : rank b = 1) :
    compareValues a b = (compare (units a) (units b)).then ((compare (textOf a) (textOf b)).then
      (compare (blobOf a) (blobOf b))) := by
  have htext : ∀ v : Value, rank v = 1 → textOf v = "" ∧ blobOf v = [] := by
    intro v hv
    cases v with
    | null | text | blob => simp [rank] at hv
    | integer | real => exact ⟨rfl, rfl⟩
  obtain ⟨hta, hba⟩ := htext a hra
  obtain ⟨htb, hbb⟩ := htext b hrb
  rw [compareValues_numbers ha hb hra hrb, hta, htb, hba, hbb]
  simp

theorem compareValues_eq_compareKeys (ha : Representable a) (hb : Representable b) :
    compareValues a b = compareKeys a b := by
  rcases lt_trichotomy (rank a) (rank b) with hlt | heq | hgt
  · have hkeys : compareKeys a b = .lt := by
      simp only [compareKeys, compareLex, compareOn, compare_lt_iff_lt.2 hlt, Ordering.then]
    rw [hkeys]
    cases a <;> cases b <;> first | rfl | simp [rank] at hlt
  · rw [compareKeys_of_rank heq]
    cases a with
    | null =>
      cases b with
      | null => rfl
      | integer | real | text | blob => simp [rank] at heq
    | integer x | real x => exact compareValues_of_numbers ha hb rfl heq.symm
    | text t =>
      cases b with
      | null | integer | real | blob => simp [rank] at heq
      | text u => simp [compareValues, units, textOf, blobOf, Ordering.then_eq]
    | blob t =>
      cases b with
      | null | integer | real | text => simp [rank] at heq
      | blob u => simp [compareValues, units, textOf, blobOf]
  · have hkeys : compareKeys a b = .gt := by
      simp only [compareKeys, compareLex, compareOn, compare_gt_iff_gt.2 hgt, Ordering.then]
    rw [hkeys]
    cases a <;> cases b <;> first | rfl | simp [rank] at hgt

instance : Std.TransCmp compareKeys :=
  inferInstanceAs (Std.TransCmp (compareLex _ (compareLex _ (compareLex _ _))))

theorem compareValues_swap (ha : Representable a) (hb : Representable b) :
    compareValues b a = (compareValues a b).swap := by
  rw [compareValues_eq_compareKeys ha hb, compareValues_eq_compareKeys hb ha]
  exact Std.OrientedCmp.eq_swap

theorem compareValues_trans {c : Value} (ha : Representable a) (hb : Representable b)
    (hc : Representable c) (hab : (compareValues a b).isLE = true)
    (hbc : (compareValues b c).isLE = true) : (compareValues a c).isLE = true := by
  rw [compareValues_eq_compareKeys ha hb] at hab
  rw [compareValues_eq_compareKeys hb hc] at hbc
  rw [compareValues_eq_compareKeys ha hc]
  exact Std.TransCmp.isLE_trans hab hbc

/-! ## Numbers by value -/

theorem number_eq_ofUnits {v : Value} {I : Set Int} (hv : Over I v) {x : EReal}
    (h : number v = some x) :
    x = Binary64.ofUnits (units v) ∧ |units v| ≤ Binary64.beyond ∧ rank v = 1 := by
  cases v with
  | null | text | blob => simp [number] at h
  | integer i =>
    have hi := hv.1.natAbs_lt
    exact ⟨((Option.some.inj h).symm.trans (Binary64.ofUnits_int hi).symm),
      (Binary64.abs_units_lt hi).le, rfl⟩
  | real b =>
    exact ⟨(Option.some.inj h).symm.trans (Binary64.toEReal_eq_ofUnits hv),
      Binary64.abs_scaled_le hv, rfl⟩

/-- **Comparing is a total order exactly over integers that a float can represent.** -/
theorem totalOrder_iff_represented (I : Set Int) :
    TotalOrder (Over I) ↔ ∀ x ∈ I, isI64 x → Binary64.Represented x := by
  constructor
  · intro h x hx hrange
    -- the integer and the float it is converted to are found equal
    have hnan := Binary64.isNaN_ofInt hrange.natAbs_lt
    have hint : Over I (.integer x) := ⟨hrange, hx⟩
    have hreal : Over I (.real (Binary64.ofInt x)) := hnan
    have heq : compareValues (.integer x) (.real (Binary64.ofInt x)) = .eq := by
      rw [compareValues, partialCmp_of_numbers hnan hnan, compare_eq_iff_eq.2 rfl]
    rw [h.exact _ _ _ _ hint hreal rfl rfl, cmp_eq_eq_iff] at heq
    obtain ⟨hx₁, hbound₁, -⟩ := number_eq_ofUnits hint rfl
    obtain ⟨hx₂, hbound₂, -⟩ := number_eq_ofUnits hreal rfl
    rw [hx₁, hx₂] at heq
    exact ⟨Binary64.ofInt x, hnan, (Binary64.ofUnits_inj hbound₁ hbound₂ heq).symm⟩
  · intro h
    have hrep : ∀ v, Over I v → Representable v := by
      intro v hv
      cases v with
      | integer x => exact ⟨hv.1, h x hv.2 hv.1⟩
      | real b => exact hv
      | null | text | blob => trivial
    refine ⟨?_, ?_, ?_⟩
    · intro a b ha hb
      exact compareValues_swap (hrep a ha) (hrep b hb)
    · intro a b c ha hb hc
      exact compareValues_trans (hrep a ha) (hrep b hb) (hrep c hc)
    · intro a b x y ha hb hx hy
      obtain ⟨hx', hbound₁, hrank₁⟩ := number_eq_ofUnits ha hx
      obtain ⟨hy', hbound₂, hrank₂⟩ := number_eq_ofUnits hb hy
      rw [compareValues_numbers (hrep a ha) (hrep b hb) hrank₁ hrank₂, hx', hy',
        Binary64.cmp_ofUnits hbound₁ hbound₂]

/-- Two integers that one float lies between and equals. -/
theorem not_totalOrder :
    compareValues (.integer (2 ^ 53)) (.real 0x4340000000000000) = .eq ∧
      compareValues (.real 0x4340000000000000) (.integer (2 ^ 53 + 1)) = .eq ∧
      compareValues (.integer (2 ^ 53)) (.integer (2 ^ 53 + 1)) = .lt ∧
      ¬ TotalOrder (Over Set.univ) := by
  refine ⟨by decide +kernel, by decide +kernel, by decide +kernel, ?_⟩
  intro h
  have hle := h.trans (.integer (2 ^ 53 + 1)) (.real 0x4340000000000000) (.integer (2 ^ 53))
    ⟨by unfold isI64; omega, trivial⟩ (by unfold Over; decide +kernel)
    ⟨by unfold isI64; omega, trivial⟩ (by decide +kernel) (by decide +kernel)
  exact absurd hle (by decide +kernel)

end Shardlite.Query
