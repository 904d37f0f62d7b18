import Mathlib.Algebra.Order.Floor.Semifield
import Mathlib.Data.Rat.Floor
import PowerForensics.Binary64.Blends
import PowerForensics.Binary64.Quotient

/-! # Values of numbers

A number that is not negative has a rational value, and what is computed of such numbers is within
half a unit of the last place of the exact result.
-/

namespace Binary64

/-- The value of a number with a positive sign. -/
def value (x : Binary64) : ℚ := units x.magnitude / one

/-- A finite number with a positive sign. -/
def Proper (x : Binary64) : Prop := Plus x ∧ x.isFinite = true

section Values

variable {x y : Binary64} {k : Nat}

theorem one_pos_rat : (0 : ℚ) < one := Nat.cast_pos.mpr one_pos

theorem value_nonneg (x : Binary64) : 0 ≤ value x := by
  unfold value
  positivity

theorem units_eq_value (x : Binary64) : (units x.magnitude : ℚ) = value x * one :=
  (div_mul_cancel₀ _ one_pos_rat.ne').symm

/-- An error of at most half a spacing, as a difference of quotients. -/
theorem quotients_near {r n d s p u : Nat} (hd : 0 < d) (hu : 0 < u)
    (hhigh : 2 * (r * d) ≤ 2 * n + s * d) (hlow : 2 * n ≤ 2 * (r * d) + s * d)
    (hs : s * 2 ^ 53 = p * u) : |(r / u : ℚ) - n / (d * u)| ≤ p / 2 ^ 54 := by
  have hdpos : (0 : ℚ) < d := Nat.cast_pos.mpr hd
  have hupos : (0 : ℚ) < u := Nat.cast_pos.mpr hu
  have hhigh' : (2 * (r * d) : ℚ) ≤ 2 * n + s * d := by exact_mod_cast hhigh
  have hlow' : (2 * n : ℚ) ≤ 2 * (r * d) + s * d := by exact_mod_cast hlow
  have hs' : (s : ℚ) * 2 ^ 53 = p * u := by exact_mod_cast hs
  have hhalf : (s : ℚ) * d = 2 * (p / 2 ^ 54 * (d * u)) := by
    have hstep : (s : ℚ) = p * u / 2 ^ 53 := by
      rw [← hs', mul_div_cancel_right₀ _ (by positivity)]
    rw [hstep]
    ring
  have hform : (r / u : ℚ) - n / (d * u) = (r * d - n) / (d * u) := by
    rw [sub_div, mul_comm (d : ℚ) u, mul_div_mul_right _ _ hdpos.ne']
  rw [hform, abs_div, abs_of_pos (mul_pos hdpos hupos), div_le_iff₀ (mul_pos hdpos hupos), abs_le]
  constructor <;> linarith

/-- What is below a power of two is rounded by at most half a unit of its last place. -/
theorem value_ofUnits_near {n d : Nat} (hk : k ≤ 1000) (hd : 0 < d) (hlt : n < 2 ^ k * one * d) :
    Proper (ofUnits false n d) ∧
      |value (ofUnits false n d) - n / (d * one)| ≤ (2 ^ k : ℕ) / 2 ^ 54 := by
  have hfinite := (within_ofUnits hk false hd hlt.le).1
  refine ⟨⟨plus_ofUnits n d, hfinite⟩, ?_⟩
  have hround : roundMagnitude n d < infMagnitude := by
    have := of_decide_eq_true hfinite
    rwa [magnitude_ofUnits] at this
  have hnext : units ((k + 1023) * 2 ^ 52 - 1 + 1) = 2 ^ k * one := by
    rw [Nat.sub_add_cancel (by omega), units_two_pow]
  have hspacing : spacing ((k + 1023) * 2 ^ 52 - 1) * 2 ^ 53 = 2 ^ k * one := by
    have hexp : ((k + 1023) * 2 ^ 52 - 1) / 2 ^ 52 - 1 = k + 1021 := by omega
    have hsum : k + 1021 + 53 = k + unitExponent := by
      rw [unitExponent]
    rw [spacing, hexp, ← Nat.pow_add, hsum, Nat.pow_add, one]
  have hbelow : n < units ((k + 1023) * 2 ^ 52 - 1 + 1) * d := by rwa [hnext]
  obtain ⟨hhigh, hlow⟩ := units_round_error hd hbelow hround
  rw [value, magnitude_ofUnits]
  exact quotients_near hd one_pos hhigh hlow hspacing

theorem value_lt {n : Nat} (hlt : value x < n) : units x.magnitude < n * one := by
  have hmul : (units x.magnitude : ℚ) < (n * one : ℕ) := by
    rw [units_eq_value, Nat.cast_mul]
    exact mul_lt_mul_of_pos_right hlt one_pos_rat
  exact Nat.cast_lt.mp hmul

theorem roundMagnitude_zero : roundMagnitude 0 1 = 0 := by
  have hround := roundMagnitude_units (Nat.zero_le infMagnitude)
  rwa [units, if_pos (by decide)] at hround

theorem add_of_proper (hx : Proper x) (hy : Proper y) :
    x + y = ofUnits false (units x.magnitude + units y.magnitude) 1 := by
  rw [add_eq hx.2 hy.2, signedUnits_pos hx.1.2, signedUnits_pos hy.1.2, hx.1.2, hy.1.2]
  split
  next hzero =>
    have hnothing : units x.magnitude + units y.magnitude = 0 := by omega
    rw [hnothing, ofUnits, roundMagnitude_zero]
    rfl
  next =>
    rw [decide_eq_false (by omega), ← Nat.cast_add, Int.natAbs_natCast]

theorem add_near (hx : Proper x) (hy : Proper y) (hk : k ≤ 1000)
    (hlt : value x + value y < (2 ^ k : ℕ)) :
    Proper (x + y) ∧ |value (x + y) - (value x + value y)| ≤ (2 ^ k : ℕ) / 2 ^ 54 := by
  have hunits : ((units x.magnitude + units y.magnitude : ℕ) : ℚ) = (value x + value y) * one := by
    rw [Nat.cast_add, units_eq_value, units_eq_value, add_mul]
  have hsum : units x.magnitude + units y.magnitude < 2 ^ k * one * 1 := by
    rw [Nat.mul_one]
    refine Nat.cast_lt.mp (?_ : ((units x.magnitude + units y.magnitude : ℕ) : ℚ) < _)
    rw [hunits, Nat.cast_mul]
    exact mul_lt_mul_of_pos_right hlt one_pos_rat
  obtain ⟨hproper, hnear⟩ := value_ofUnits_near hk Nat.one_pos hsum
  rw [hunits, Nat.cast_one, one_mul, mul_div_cancel_right₀ _ one_pos_rat.ne'] at hnear
  rw [add_of_proper hx hy]
  exact ⟨hproper, hnear⟩

theorem mul_near (hx : Proper x) (hy : Proper y) (hpos : y.magnitude ≠ 0) (hk : k ≤ 1000)
    (hlt : value x * value y < (2 ^ k : ℕ)) :
    Proper (x * y) ∧ |value (x * y) - value x * value y| ≤ (2 ^ k : ℕ) / 2 ^ 54 := by
  have hunits : ((units x.magnitude * units y.magnitude : ℕ) : ℚ) =
      value x * value y * (one * one) := by
    rw [Nat.cast_mul, units_eq_value, units_eq_value]
    ring
  have hproduct : units x.magnitude * units y.magnitude < 2 ^ k * one * one := by
    refine Nat.cast_lt.mp (?_ : ((units x.magnitude * units y.magnitude : ℕ) : ℚ) < _)
    rw [hunits, Nat.mul_assoc, Nat.cast_mul (2 ^ k), Nat.cast_mul one]
    exact mul_lt_mul_of_pos_right hlt (mul_pos one_pos_rat one_pos_rat)
  obtain ⟨hproper, hnear⟩ := value_ofUnits_near hk one_pos hproduct
  rw [hunits, mul_div_cancel_right₀ _ (mul_pos one_pos_rat one_pos_rat).ne'] at hnear
  rw [mul_of_plus hx.1 hy.1 hy.2 hpos, (fields_of_finite hx.2).2, if_neg Bool.false_ne_true]
  exact ⟨hproper, hnear⟩

theorem div_near (hx : Proper x) (hy : Proper y) (hpos : y.magnitude ≠ 0) (hk : k ≤ 1000)
    (hlt : value x / value y < (2 ^ k : ℕ)) :
    Proper (x / y) ∧ |value (x / y) - value x / value y| ≤ (2 ^ k : ℕ) / 2 ^ 54 := by
  have hypos : 0 < units y.magnitude := units_pos hpos
  have hypos' : (0 : ℚ) < value y := div_pos (Nat.cast_pos.mpr hypos) one_pos_rat
  have hquotient : units x.magnitude * one < 2 ^ k * one * units y.magnitude := by
    refine Nat.cast_lt.mp (?_ : ((units x.magnitude * one : ℕ) : ℚ) < _)
    rw [Nat.cast_mul, Nat.cast_mul, Nat.cast_mul, units_eq_value, units_eq_value y]
    have hmul := (div_lt_iff₀ hypos').mp hlt
    have hone := mul_pos one_pos_rat one_pos_rat
    calc value x * one * one = value x * (one * one) := mul_assoc _ _ _
      _ < (2 ^ k : ℕ) * value y * (one * one) := mul_lt_mul_of_pos_right hmul hone
      _ = (2 ^ k : ℕ) * one * (value y * one) := by ring
  obtain ⟨hproper, hnear⟩ := value_ofUnits_near hk hypos hquotient
  have hform : ((units x.magnitude * one : ℕ) : ℚ) / (units y.magnitude * one) =
      value x / value y := by
    rw [Nat.cast_mul, mul_div_mul_right _ _ one_pos_rat.ne', units_eq_value, units_eq_value y,
      mul_div_mul_right _ _ one_pos_rat.ne']
  rw [hform] at hnear
  rw [div_of_plus hx.1 hy.1 hy.2 hpos, (fields_of_finite hx.2).2, if_neg Bool.false_ne_true]
  exact ⟨hproper, hnear⟩

/-- An integer of 53 bits is its own value. -/
theorem ofNat_proper {n : Nat} (hn : n < 2 ^ 53) : Proper (ofNat n) ∧ value (ofNat n) = n := by
  refine ⟨⟨plus_ofUnits _ _, isFinite_ofNat (hn.trans (by decide))⟩, ?_⟩
  have hunits : units (ofNat n).magnitude = n * one := by
    rw [ofNat, magnitude_ofUnits]
    rcases Nat.eq_zero_or_pos n with rfl | hpos
    · rw [Nat.zero_mul, roundMagnitude_zero]
      rfl
    · exact units_ofNat_exact hpos hn
  rw [value, hunits, Nat.cast_mul, mul_div_cancel_right₀ _ one_pos_rat.ne']

/-- A number below the largest integer is cut to its floor. -/
theorem toUnsigned_eq_floor {w : Nat} (hx : Proper x) (hlt : value x < (2 ^ w : ℕ)) :
    x.toUnsigned w = ⌊value x⌋₊ := by
  obtain ⟨hnan, hinf⟩ := fields_of_finite hx.2
  have hbelow := value_lt hlt
  have hdiv : units x.magnitude / one < 2 ^ w := (Nat.div_lt_iff_lt_mul one_pos).mpr hbelow
  rw [toUnsigned, hnan, hx.1.2, hinf, Bool.or_self, if_neg Bool.false_ne_true,
    if_neg Bool.false_ne_true, min_eq_left (by omega), value, Nat.floor_div_eq_div]

/-- The order of numbers is that of their values. -/
theorem value_le_of_le (hx : Proper x) (hy : Proper y) (hle : x ≤ y) : value x ≤ value y := by
  have hunits := signedUnits_mono hle.2.2
  rw [signedUnits_pos hx.1.2, signedUnits_pos hy.1.2, Int.ofNat_le] at hunits
  exact div_le_div_of_nonneg_right (Nat.cast_le.mpr hunits) one_pos_rat.le

theorem sub_of_proper (hx : Proper x) (hy : Proper y) (hlt : value y < value x) :
    x - y = ofUnits false (units x.magnitude - units y.magnitude) 1 := by
  have hunits : units y.magnitude < units x.magnitude := by
    have hmul := mul_lt_mul_of_pos_right hlt one_pos_rat
    rw [← units_eq_value, ← units_eq_value] at hmul
    exact Nat.cast_lt.mp hmul
  have hneg : (-y).isFinite = true := by rw [isFinite, magnitude_neg]; exact hy.2
  change x + -y = _
  rw [add_eq hx.2 hneg, signedUnits_opposite, signedUnits_pos hx.1.2, signedUnits_pos hy.1.2,
    if_neg (by omega), decide_eq_false (by omega)]
  congr 1
  omega

theorem sub_near (hx : Proper x) (hy : Proper y) (hlt : value y < value x) (hk : k ≤ 1000)
    (hsmall : value x < (2 ^ k : ℕ)) :
    Proper (x - y) ∧ |value (x - y) - (value x - value y)| ≤ (2 ^ k : ℕ) / 2 ^ 54 := by
  have hle : units y.magnitude ≤ units x.magnitude := by
    have hmul := mul_le_mul_of_nonneg_right hlt.le one_pos_rat.le
    rw [← units_eq_value, ← units_eq_value] at hmul
    exact Nat.cast_le.mp hmul
  have hunits : ((units x.magnitude - units y.magnitude : ℕ) : ℚ) = (value x - value y) * one := by
    rw [Nat.cast_sub hle, units_eq_value, units_eq_value, sub_mul]
  have hbelow : units x.magnitude - units y.magnitude < 2 ^ k * one * 1 := by
    rw [Nat.mul_one]
    exact lt_of_le_of_lt (Nat.sub_le _ _) (value_lt hsmall)
  obtain ⟨hproper, hnear⟩ := value_ofUnits_near hk Nat.one_pos hbelow
  rw [hunits, Nat.cast_one, one_mul, mul_div_cancel_right₀ _ one_pos_rat.ne'] at hnear
  rw [sub_of_proper hx hy hlt]
  exact ⟨hproper, hnear⟩

end Values

end Binary64
