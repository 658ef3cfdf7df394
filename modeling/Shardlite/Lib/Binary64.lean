/-
  Shardlite.Lib.Binary64

  64-bit floating-point numbers as bit patterns.  The pattern that is not a NaN stands for a
  whole number of units of `2^-1074`, the smallest positive value; comparing two of them is
  comparing those numbers, and the infinities lie beyond all the others by the same formula.

  Converting an integer rounds to the nearest value, to the even one of two.
-/
import Mathlib

namespace Binary64

/-! ## Fields and value -/

def negative (b : UInt64) : Bool := 2 ^ 63 ≤ b.toNat

def exponent (b : UInt64) : Nat := b.toNat / 2 ^ 52 % 2 ^ 11

def fraction (b : UInt64) : Nat := b.toNat % 2 ^ 52

/-- A NaN, which has no value. -/
def isNaN (b : UInt64) : Bool := exponent b = 2047 ∧ fraction b ≠ 0

def isInfinite (b : UInt64) : Bool := exponent b = 2047 ∧ fraction b = 0

/-- The absolute value in units of `2^-1074`, from the exponent and the fraction. -/
def magnitude (e f : Nat) : Nat := if e = 0 then f else (2 ^ 52 + f) * 2 ^ (e - 1)

/-- The value in units of `2^-1074`. -/
def scaled (b : UInt64) : Int :=
  if negative b then -(magnitude (exponent b) (fraction b) : Int)
  else magnitude (exponent b) (fraction b)

/-- `partial_cmp`. -/
def partialCmp (a b : UInt64) : Option Ordering :=
  if isNaN a ∨ isNaN b then none else some (compare (scaled a) (scaled b))

/-- The scaled value of 1: the unit is the least subnormal. -/
def one : Nat := 2 ^ 1074

/-- What the formula gives for the infinities. -/
def beyond : Nat := 2 ^ 2098

/-- The value as an extended real number; a NaN has none. -/
noncomputable def toEReal (b : UInt64) : EReal :=
  if isInfinite b then if negative b then ⊥ else ⊤ else ((scaled b : ℝ) / (one : ℝ) : ℝ)

theorem one_pos : 0 < one := by
  unfold one
  positivity

theorem beyond_pos : 0 < (beyond : Int) := by
  unfold beyond
  positivity

section Bounds

variable {b : UInt64}

theorem fraction_lt (b : UInt64) : fraction b < 2 ^ 52 := Nat.mod_lt _ (by norm_num)

theorem exponent_le (b : UInt64) : exponent b ≤ 2047 := by
  have : exponent b < 2 ^ 11 := Nat.mod_lt _ (by norm_num)
  omega

theorem magnitude_infinite : magnitude 2047 0 = beyond := by
  rw [magnitude, if_neg (by norm_num), Nat.add_zero, ← pow_add, beyond]

theorem scaled_infinite (h : isInfinite b = true) :
    scaled b = if negative b then -(beyond : Int) else beyond := by
  simp only [isInfinite, decide_eq_true_eq] at h
  rw [scaled, h.1, h.2, magnitude_infinite]

theorem abs_scaled_lt (hnan : isNaN b = false) (hinf : isInfinite b = false) :
    |scaled b| < beyond := by
  have hf := fraction_lt b
  have he := exponent_le b
  have hfin : exponent b ≠ 2047 := by
    intro heq
    simp only [isNaN, isInfinite, heq, decide_eq_false_iff_not, true_and] at hnan hinf
    exact hinf (not_not.1 hnan)
  have hmag : magnitude (exponent b) (fraction b) < beyond := by
    unfold magnitude beyond
    split_ifs with hzero
    · exact hf.trans (pow_lt_pow_right₀ (by norm_num) (by norm_num))
    · have hexp : 2 ^ (exponent b - 1) ≤ 2 ^ 2045 :=
        pow_le_pow_right₀ (by norm_num) (by omega)
      calc (2 ^ 52 + fraction b) * 2 ^ (exponent b - 1)
          < 2 ^ 53 * 2 ^ (exponent b - 1) := by
            apply Nat.mul_lt_mul_of_pos_right
            · omega
            · exact Nat.two_pow_pos _
        _ ≤ 2 ^ 53 * 2 ^ 2045 := Nat.mul_le_mul_left _ hexp
        _ = 2 ^ 2098 := by rw [← pow_add]
  unfold scaled
  split_ifs
  · rw [abs_neg, Nat.abs_cast]
    exact Int.ofNat_lt.2 hmag
  · rw [Nat.abs_cast]
    exact Int.ofNat_lt.2 hmag

end Bounds

/-! ## Comparing is comparing values -/

noncomputable def ofUnits (n : Int) : EReal :=
  if n ≤ -(beyond : Int) then ⊥ else if (beyond : Int) ≤ n then ⊤ else ((n : ℝ) / (one : ℝ) : ℝ)

variable {b : UInt64} {m n x : Int}

theorem toEReal_eq_ofUnits (hnan : isNaN b = false) :
    toEReal b = ofUnits (scaled b) := by
  have hpos := beyond_pos
  unfold toEReal ofUnits
  cases hinf : isInfinite b with
  | true =>
    rw [scaled_infinite hinf, if_pos rfl]
    cases negative b with
    | true => rw [if_pos rfl, if_pos rfl, if_pos le_rfl]
    | false =>
      have hneg : ¬ (beyond : Int) ≤ -(beyond : Int) := by omega
      rw [if_neg Bool.false_ne_true, if_neg Bool.false_ne_true, if_neg hneg, if_pos le_rfl]
  | false =>
    have hlt := abs_lt.1 (abs_scaled_lt hnan hinf)
    rw [if_neg Bool.false_ne_true, if_neg (by omega), if_neg (by omega)]

theorem ofUnits_lt (hm : |m| ≤ beyond) (hn : |n| ≤ beyond) :
    ofUnits m < ofUnits n ↔ m < n := by
  have hone : (0 : ℝ) < (one : ℝ) := by exact_mod_cast one_pos
  have hpos := beyond_pos
  obtain ⟨hm₁, hm₂⟩ := abs_le.1 hm
  obtain ⟨hn₁, hn₂⟩ := abs_le.1 hn
  unfold ofUnits
  split_ifs with h₁ h₂ h₃ h₄ h₅ h₆ h₇ h₈
  all_goals first
    | (rw [EReal.coe_lt_coe_iff, div_lt_div_iff_of_pos_right hone, Int.cast_lt])
    | (simp only [lt_self_iff_false, EReal.bot_lt_coe, EReal.coe_lt_top, bot_lt_top, not_lt_bot,
        not_top_lt, true_iff, false_iff]; omega)

theorem cmp_ofUnits (hm : |m| ≤ beyond) (hn : |n| ≤ beyond) :
    cmp (ofUnits m) (ofUnits n) = compare m n := by
  rcases lt_trichotomy m n with hlt | rfl | hgt
  · rw [compare_lt_iff_lt.2 hlt, cmp_eq_lt_iff]
    exact (ofUnits_lt hm hn).2 hlt
  · rw [compare_eq_iff_eq.2 rfl, cmp_self_eq_eq]
  · rw [compare_gt_iff_gt.2 hgt, cmp_eq_gt_iff]
    exact (ofUnits_lt hn hm).2 hgt

theorem ofUnits_inj (hm : |m| ≤ beyond) (hn : |n| ≤ beyond)
    (h : ofUnits m = ofUnits n) : m = n := by
  apply compare_eq_iff_eq.1
  rw [← cmp_ofUnits hm hn, h, cmp_self_eq_eq]

theorem abs_scaled_le (hnan : isNaN b = false) : |scaled b| ≤ beyond := by
  have hpos := beyond_pos
  cases hinf : isInfinite b with
  | true =>
    rw [scaled_infinite hinf]
    split_ifs
    · rw [abs_neg, Nat.abs_cast]
    · rw [Nat.abs_cast]
  | false => exact (abs_scaled_lt hnan hinf).le

theorem abs_units_lt (h : x.natAbs < 2 ^ 64) : |x * one| < beyond := by
  have hnat : x.natAbs * one < beyond := by
    unfold one beyond
    calc x.natAbs * 2 ^ 1074 < 2 ^ 64 * 2 ^ 1074 :=
          Nat.mul_lt_mul_of_pos_right h (by positivity)
      _ = 2 ^ 1138 := by rw [← pow_add]
      _ ≤ 2 ^ 2098 := pow_le_pow_right₀ (by norm_num) (by norm_num)
  rw [abs_mul, Nat.abs_cast, Int.abs_eq_natAbs]
  exact_mod_cast hnat

theorem ofUnits_int (h : x.natAbs < 2 ^ 64) :
    ofUnits (x * one) = ((x : ℝ) : EReal) := by
  have hlt := abs_lt.1 (abs_units_lt h)
  have hone : (one : ℝ) ≠ 0 := by exact_mod_cast one_pos.ne'
  rw [ofUnits, if_neg (by omega), if_neg (by omega)]
  congr 1
  push_cast
  exact mul_div_cancel_right₀ _ hone

/-! ## Converting an integer -/

/-- `n` over `2 ^ k`, rounded to the nearest whole number, to the even one of two. -/
def roundShift (n k : Nat) : Nat :=
  if 2 ^ k < 2 * (n % 2 ^ k) ∨ 2 * (n % 2 ^ k) = 2 ^ k ∧ n / 2 ^ k % 2 = 1 then n / 2 ^ k + 1
  else n / 2 ^ k

/-- The 53 leading bits of a positive number, rounded. -/
def significand (n : Nat) : Nat :=
  if n.log2 ≤ 52 then n * 2 ^ (52 - n.log2) else roundShift n (n.log2 - 52)

/-- The bits of a natural number.  A significand that rounded up to the next power of two
    carries into the exponent. -/
def natBits (n : Nat) : Nat :=
  if n = 0 then 0 else (1023 + n.log2) * 2 ^ 52 + (significand n - 2 ^ 52)

/-- `x as f64`. -/
def ofInt (x : Int) : UInt64 :=
  UInt64.ofNat (if x < 0 then 2 ^ 63 + natBits x.natAbs else natBits x.natAbs)

/-- The integer that a natural number is rounded to. -/
def roundNat (n : Nat) : Nat :=
  if n.log2 ≤ 52 then n else roundShift n (n.log2 - 52) * 2 ^ (n.log2 - 52)

def roundInt (x : Int) : Int := if x < 0 then -(roundNat x.natAbs : Int) else roundNat x.natAbs

variable {n : Nat}

theorem roundShift_bounds {k : Nat} (hlow : 2 ^ (52 + k) ≤ n) (hhigh : n < 2 ^ (53 + k)) :
    2 ^ 52 ≤ roundShift n k ∧ roundShift n k ≤ 2 ^ 53 := by
  have hpos : 0 < 2 ^ k := Nat.two_pow_pos k
  have hq : 2 ^ 52 ≤ n / 2 ^ k := by
    rw [Nat.le_div_iff_mul_le hpos, ← pow_add]
    exact hlow
  have hq' : n / 2 ^ k < 2 ^ 53 := by
    rw [Nat.div_lt_iff_lt_mul hpos, ← pow_add]
    exact hhigh
  unfold roundShift
  split_ifs
  · omega
  · omega

theorem significand_bounds (h : n ≠ 0) :
    2 ^ 52 ≤ significand n ∧ significand n ≤ 2 ^ 53 := by
  have hlow : 2 ^ n.log2 ≤ n := Nat.log2_self_le h
  have hhigh : n < 2 ^ (n.log2 + 1) := Nat.lt_log2_self
  unfold significand
  split_ifs with hsmall
  · constructor
    · calc 2 ^ 52 = 2 ^ n.log2 * 2 ^ (52 - n.log2) := by rw [← pow_add]; congr 1; omega
        _ ≤ n * 2 ^ (52 - n.log2) := Nat.mul_le_mul_right _ hlow
    · calc n * 2 ^ (52 - n.log2) ≤ 2 ^ (n.log2 + 1) * 2 ^ (52 - n.log2) :=
            Nat.mul_le_mul_right _ hhigh.le
        _ = 2 ^ 53 := by rw [← pow_add]; congr 1; omega
  · apply roundShift_bounds
    · convert hlow using 2
      omega
    · convert hhigh using 2
      omega

theorem magnitude_bits {e g : Nat} (he : 1 ≤ e) (hfits : e + 1 < 2 ^ 11) (hg : g ≤ 2 ^ 52) :
    magnitude ((e * 2 ^ 52 + g) / 2 ^ 52 % 2 ^ 11) ((e * 2 ^ 52 + g) % 2 ^ 52) =
      (2 ^ 52 + g) * 2 ^ (e - 1) := by
  rcases hg.lt_or_eq with hlt | rfl
  · have hexp : (e * 2 ^ 52 + g) / 2 ^ 52 % 2 ^ 11 = e := by omega
    have hfrac : (e * 2 ^ 52 + g) % 2 ^ 52 = g := by omega
    rw [hexp, hfrac, magnitude, if_neg (by omega)]
  · have hexp : (e * 2 ^ 52 + 2 ^ 52) / 2 ^ 52 % 2 ^ 11 = e + 1 := by omega
    have hfrac : (e * 2 ^ 52 + 2 ^ 52) % 2 ^ 52 = 0 := by omega
    have hsucc : e + 1 - 1 = e - 1 + 1 := by omega
    rw [hexp, hfrac, magnitude, if_neg (by omega), hsucc, pow_succ, Nat.add_zero]
    ring

theorem significand_mul :
    significand n * 2 ^ (1022 + n.log2) = roundNat n * one := by
  unfold significand roundNat
  split_ifs with hsmall
  · have hexp : 52 - n.log2 + (1022 + n.log2) = 1074 := by omega
    rw [mul_assoc, ← pow_add, hexp, one]
  · have hexp : n.log2 - 52 + 1074 = 1022 + n.log2 := by omega
    rw [one, mul_assoc, ← pow_add, hexp]

theorem natBits_lt (h : n < 2 ^ 64) : natBits n < 2 ^ 63 := by
  unfold natBits
  split_ifs with hzero
  · norm_num
  · have hlog : n.log2 < 64 := (Nat.log2_lt hzero).2 h
    have := (significand_bounds hzero).2
    omega

theorem magnitude_natBits (h : n < 2 ^ 64) :
    magnitude (natBits n / 2 ^ 52 % 2 ^ 11) (natBits n % 2 ^ 52) = roundNat n * one := by
  by_cases hzero : n = 0
  · subst hzero
    simp [natBits, magnitude, roundNat]
  · have hlog : n.log2 < 64 := (Nat.log2_lt hzero).2 h
    obtain ⟨hlow, hhigh⟩ := significand_bounds hzero
    have hsum : 2 ^ 52 + (significand n - 2 ^ 52) = significand n := by omega
    have hexp : 1023 + n.log2 - 1 = 1022 + n.log2 := by omega
    rw [natBits, if_neg hzero, magnitude_bits (by omega) (by omega) (by omega), hsum, hexp,
      significand_mul]

theorem scaled_ofInt (h : x.natAbs < 2 ^ 64) : scaled (ofInt x) = roundInt x * one := by
  have hbits := natBits_lt h
  have hmag := magnitude_natBits h
  unfold scaled ofInt roundInt negative exponent fraction
  by_cases hx : x < 0
  · have hnat : (UInt64.ofNat (2 ^ 63 + natBits x.natAbs)).toNat = 2 ^ 63 + natBits x.natAbs := by
      rw [UInt64.toNat_ofNat']
      omega
    have hexp : (2 ^ 63 + natBits x.natAbs) / 2 ^ 52 % 2 ^ 11 =
        natBits x.natAbs / 2 ^ 52 % 2 ^ 11 := by omega
    have hfrac : (2 ^ 63 + natBits x.natAbs) % 2 ^ 52 = natBits x.natAbs % 2 ^ 52 := by omega
    rw [if_pos hx, if_pos hx, hnat, hexp, hfrac, hmag, if_pos (by simp)]
    push_cast
    ring
  · have hnat : (UInt64.ofNat (natBits x.natAbs)).toNat = natBits x.natAbs := by
      rw [UInt64.toNat_ofNat']
      omega
    rw [if_neg hx, if_neg hx, hnat, hmag, if_neg (by simp; omega)]
    push_cast
    ring

theorem isNaN_ofInt (h : x.natAbs < 2 ^ 64) : isNaN (ofInt x) = false := by
  have hlow : natBits x.natAbs / 2 ^ 52 % 2 ^ 11 ≠ 2047 := by
    unfold natBits
    split_ifs with hzero
    · norm_num
    · have hlog : x.natAbs.log2 < 64 := (Nat.log2_lt hzero).2 h
      have := (significand_bounds hzero).2
      omega
  have hbits := natBits_lt h
  have hexp : exponent (ofInt x) = natBits x.natAbs / 2 ^ 52 % 2 ^ 11 := by
    unfold exponent ofInt
    rw [UInt64.toNat_ofNat']
    split_ifs
    · omega
    · omega
  rw [isNaN, hexp, decide_eq_false_iff_not]
  exact fun hnan => hlow hnan.1

/-! ## Integers that are represented exactly -/

/-- Some double has exactly this value. -/
def Represented (x : Int) : Prop := ∃ b, isNaN b = false ∧ scaled b = x * one

/-- A number with no bits below its 53 leading ones is not rounded. -/
theorem roundNat_of_dvd (h : 2 ^ (n.log2 - 52) ∣ n) : roundNat n = n := by
  unfold roundNat
  split_ifs with hsmall
  · rfl
  · have hmod : n % 2 ^ (n.log2 - 52) = 0 := Nat.mod_eq_zero_of_dvd h
    have hpos : 0 < 2 ^ (n.log2 - 52) := Nat.two_pow_pos _
    rw [roundShift, if_neg (by rw [hmod]; omega), Nat.div_mul_cancel h]

theorem magnitude_shift {e f : Nat} (hf : f < 2 ^ 52) :
    ∃ m t, m < 2 ^ 53 ∧ magnitude e f = m * 2 ^ t := by
  unfold magnitude
  split_ifs
  · exact ⟨f, 0, by omega, by simp⟩
  · exact ⟨2 ^ 52 + f, e - 1, by omega, rfl⟩

theorem roundNat_of_magnitude {e f : Nat} (hf : f < 2 ^ 52) (h : magnitude e f = n * one) :
    roundNat n = n := by
  by_cases hzero : n = 0
  · subst hzero
    rfl
  · obtain ⟨m, t, hm, hmag⟩ := magnitude_shift (e := e) hf
    apply roundNat_of_dvd
    have hlow : 2 ^ n.log2 ≤ n := Nat.log2_self_le hzero
    have heq : n * 2 ^ 1074 = m * 2 ^ t := by rw [← hmag, h, one]
    -- the shift reaches beyond the unit by at least as much as is cut off
    have hshift : n.log2 + 1074 < 53 + t := by
      have hlt : 2 ^ (n.log2 + 1074) < 2 ^ (53 + t) := by
        calc 2 ^ (n.log2 + 1074) = 2 ^ n.log2 * 2 ^ 1074 := pow_add ..
          _ ≤ n * 2 ^ 1074 := Nat.mul_le_mul_right _ hlow
          _ = m * 2 ^ t := heq
          _ < 2 ^ 53 * 2 ^ t := Nat.mul_lt_mul_of_pos_right hm (Nat.two_pow_pos t)
          _ = 2 ^ (53 + t) := (pow_add ..).symm
      exact (Nat.pow_lt_pow_iff_right (by norm_num)).1 hlt
    rcases le_or_gt n.log2 52 with hsmall | hlarge
    · rw [Nat.sub_eq_zero_of_le hsmall, pow_zero]
      exact one_dvd n
    · have hsplit : t - 1074 - (n.log2 - 52) + (n.log2 - 52 + 1074) = t := by omega
      have hn : n = m * 2 ^ (t - 1074 - (n.log2 - 52)) * 2 ^ (n.log2 - 52) := by
        apply Nat.eq_of_mul_eq_mul_right (show 0 < 2 ^ 1074 by positivity)
        rw [heq, mul_assoc, mul_assoc, ← pow_add, ← pow_add, hsplit]
      exact Dvd.intro_left _ hn.symm

/-- **An integer is converted exactly when some value represents it.** -/
theorem roundInt_eq_iff (h : x.natAbs < 2 ^ 64) : roundInt x = x ↔ Represented x := by
  constructor
  · intro hround
    exact ⟨ofInt x, isNaN_ofInt h, by rw [scaled_ofInt h, hround]⟩
  · rintro ⟨b, -, hb⟩
    have habs : magnitude (exponent b) (fraction b) = x.natAbs * one := by
      have := congrArg Int.natAbs hb
      rw [Int.natAbs_mul, Int.natAbs_natCast] at this
      rw [← this, scaled]
      split_ifs
      · rw [Int.natAbs_neg, Int.natAbs_natCast]
      · rw [Int.natAbs_natCast]
    rw [roundInt, roundNat_of_magnitude (fraction_lt b) habs]
    split_ifs
    · omega
    · omega

theorem represented_of_le (h : x.natAbs ≤ 2 ^ 53) : Represented x := by
  rw [← roundInt_eq_iff (by omega)]
  have hround : roundNat x.natAbs = x.natAbs := by
    rcases h.lt_or_eq with hlt | heq
    · by_cases hzero : x.natAbs = 0
      · rw [hzero]
        rfl
      · have hlog : x.natAbs.log2 < 53 := (Nat.log2_lt hzero).2 hlt
        rw [roundNat, if_pos (by omega)]
    · rw [heq]
      decide +kernel
  rw [roundInt, hround]
  split_ifs
  · omega
  · omega

end Binary64
