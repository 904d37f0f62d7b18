import PowerForensics.Binary64.Finite
import PowerForensics.Binary64.Order

/-! # Bounded numbers

Rounding is monotone, so a number stays below a power of two where its exact value does: through
sums, products and quotients.
-/

namespace Binary64

/-! ## Rounding is monotone -/

theorem roundHalfEven_mono {a b : Nat} (hle : a ≤ b) (d : Nat) :
    roundHalfEven a d ≤ roundHalfEven b d := by
  have hdiv : a / d ≤ b / d := Nat.div_le_div_right hle
  obtain hlt | heq := hdiv.lt_or_eq
  · exact (roundHalfEven_le a d).trans ((Nat.succ_le_of_lt hlt).trans (le_roundHalfEven b d))
  · have ha := Nat.div_add_mod a d
    have hb := Nat.div_add_mod b d
    rw [heq] at ha
    unfold roundHalfEven
    rw [heq]
    split_ifs <;> omega

section Quotients

variable {n d n' d' : Nat} (hd : 0 < d) (hd' : 0 < d')

include hd hd' in
theorem roundHalfEven_le_of_quotient (hle : n * d' ≤ n' * d) :
    roundHalfEven n d ≤ roundHalfEven n' d' := by
  rw [← roundHalfEven_mul_right n d d' hd', ← roundHalfEven_mul_right n' d' d hd,
    Nat.mul_comm d' d]
  exact roundHalfEven_mono hle _

theorem quotient_significand_le :
    roundHalfEven n (d * 2 ^ ((n / d).log2 - 52)) ≤ 2 ^ 53 := by
  have hquot : n / (d * 2 ^ ((n / d).log2 - 52)) < 2 ^ 53 := by
    rw [← Nat.div_div_eq_div_mul, Nat.div_lt_iff_lt_mul (Nat.two_pow_pos _), ← Nat.pow_add]
    exact (lt_two_pow_log2 _).trans_le (Nat.pow_le_pow_right (by decide) (by omega))
  exact (roundHalfEven_le _ _).trans hquot

theorem le_quotient_significand (hlog : 52 ≤ (n / d).log2) :
    2 ^ 52 ≤ roundHalfEven n (d * 2 ^ ((n / d).log2 - 52)) := by
  have hne : n / d ≠ 0 := by
    intro h
    rw [h] at hlog
    simp at hlog
  refine le_trans ?_ (le_roundHalfEven _ _)
  rw [← Nat.div_div_eq_div_mul, Nat.le_div_iff_mul_le (Nat.two_pow_pos _), ← Nat.pow_add,
    Nat.add_sub_cancel' hlog]
  exact Nat.log2_self_le hne

include hd hd' in
theorem roundMagnitude_mono (hle : n * d' ≤ n' * d) :
    roundMagnitude n d ≤ roundMagnitude n' d' := by
  have hquot : n / d ≤ n' / d' := by
    rw [Nat.le_div_iff_mul_le hd']
    refine Nat.le_of_mul_le_mul_right ?_ hd
    calc n / d * d' * d = n / d * d * d' := Nat.mul_right_comm _ _ _
      _ ≤ n * d' := Nat.mul_le_mul_right _ (Nat.div_mul_le_self n d)
      _ ≤ n' * d := hle
  have hlog := log2_le_log2 hquot
  refine min_le_min_right _ ?_
  obtain hlt | heq : (n / d).log2 - 52 < (n' / d').log2 - 52 ∨
      (n / d).log2 - 52 = (n' / d').log2 - 52 := by omega
  · have hhigh := quotient_significand_le (n := n) (d := d)
    have hlow := le_quotient_significand (n := n') (d := d') (by omega)
    omega
  · rw [heq]
    have hscaled : ∀ c, n * (d' * c) ≤ n' * (d * c) := by
      intro c
      rw [← Nat.mul_assoc, ← Nat.mul_assoc]
      exact Nat.mul_le_mul_right _ hle
    exact Nat.add_le_add_left (roundHalfEven_le_of_quotient
      (Nat.mul_pos hd (Nat.two_pow_pos _)) (Nat.mul_pos hd' (Nat.two_pow_pos _)) (hscaled _)) _

end Quotients

theorem units_mono {a b : Nat} (hle : a ≤ b) : units a ≤ units b := by
  unfold units
  split
  next ha =>
    split
    next => exact hle
    next hb =>
      have hpos : 0 < 2 ^ (b / 2 ^ 52 - 1) := Nat.two_pow_pos _
      calc a ≤ 2 ^ 52 + b % 2 ^ 52 := by omega
        _ ≤ (2 ^ 52 + b % 2 ^ 52) * 2 ^ (b / 2 ^ 52 - 1) := Nat.le_mul_of_pos_right _ hpos
  next ha =>
    rw [if_neg (by omega)]
    obtain hlt | heq : a / 2 ^ 52 - 1 < b / 2 ^ 52 - 1 ∨ a / 2 ^ 52 - 1 = b / 2 ^ 52 - 1 := by
      omega
    · calc (2 ^ 52 + a % 2 ^ 52) * 2 ^ (a / 2 ^ 52 - 1)
          ≤ 2 ^ 53 * 2 ^ (a / 2 ^ 52 - 1) := Nat.mul_le_mul_right _ (by omega)
        _ = 2 ^ 52 * 2 ^ (a / 2 ^ 52 - 1 + 1) := by ring
        _ ≤ 2 ^ 52 * 2 ^ (b / 2 ^ 52 - 1) :=
            Nat.mul_le_mul_left _ (Nat.pow_le_pow_right (by decide) hlt)
        _ ≤ (2 ^ 52 + b % 2 ^ 52) * 2 ^ (b / 2 ^ 52 - 1) :=
            Nat.mul_le_mul_right _ (Nat.le_add_right _ _)
    · rw [heq]
      exact Nat.mul_le_mul_right _ (by omega)

/-! ## Numbers below a power of two -/

/-- A finite number of at most some power of two. -/
def Within (k : Nat) (x : Binary64) : Prop :=
  x.isFinite = true ∧ units x.magnitude ≤ 2 ^ k * one

theorem units_two_pow (k : Nat) : units ((k + 1023) * 2 ^ 52) = 2 ^ k * one := by
  have hsplit : (k + 1023) * 2 ^ 52 = (k + 1022) * 2 ^ 52 + 2 ^ 52 := by omega
  have hexp : 52 + (k + 1022) = k + unitExponent := Nat.add_left_comm 52 k 1022
  rw [hsplit, units_scaled (by decide) (Or.inr le_rfl), one, ← Nat.pow_add, ← Nat.pow_add, hexp]

section Bound

variable {k : Nat} {n d : Nat} {x y : Binary64}

/-- What is rounded to at most a power of two. -/
theorem within_of_roundMagnitude (hk : k ≤ 1000) (neg : Bool)
    (hround : roundMagnitude n d ≤ (k + 1023) * 2 ^ 52) : Within k (ofUnits neg n d) := by
  have hinf : infMagnitude = 2047 * 2 ^ 52 := rfl
  refine ⟨isFinite_ofUnits (by omega), ?_⟩
  rw [magnitude_ofUnits, ← units_two_pow]
  exact units_mono hround

theorem roundMagnitude_two_pow (hk : k ≤ 1000) :
    roundMagnitude (2 ^ k * one) 1 = (k + 1023) * 2 ^ 52 := by
  have hinf : infMagnitude = 2047 * 2 ^ 52 := rfl
  rw [← units_two_pow, roundMagnitude_units (by omega)]

theorem within_ofUnits (hk : k ≤ 1000) (neg : Bool) (hd : 0 < d) (hle : n ≤ 2 ^ k * one * d) :
    Within k (ofUnits neg n d) := by
  apply within_of_roundMagnitude hk
  rw [← roundMagnitude_two_pow hk]
  exact roundMagnitude_mono hd Nat.one_pos (by rwa [Nat.mul_one])

theorem Within.mono {j : Nat} (hx : Within k x) (hle : k ≤ j) : Within j x :=
  ⟨hx.1, hx.2.trans (Nat.mul_le_mul_right _ (Nat.pow_le_pow_right (by decide) hle))⟩

theorem Within.fields (hx : Within k x) : x.isNaN = false ∧ x.isInfinite = false :=
  fields_of_finite hx.1

theorem within_of_zero (hx : x.magnitude = 0) : Within k x := by
  refine ⟨by simp [isFinite, hx, infMagnitude], ?_⟩
  rw [hx, units, if_pos (by decide)]
  exact Nat.zero_le _

theorem Within.neg (hx : Within k x) : Within k (-x) := by
  rw [Within, isFinite, Binary64.magnitude_neg]
  exact hx

theorem natAbs_signedUnits (x : Binary64) : x.signedUnits.natAbs = units x.magnitude := by
  unfold signedUnits
  split <;> simp

/-- A sum is what the exact sum is rounded to. -/
theorem add_eq (hx : x.isFinite = true) (hy : y.isFinite = true) :
    x + y = if x.signedUnits + y.signedUnits = 0 then zero (x.negative && y.negative)
      else ofUnits (x.signedUnits + y.signedUnits < 0)
        (x.signedUnits + y.signedUnits).natAbs 1 := by
  obtain ⟨hxnan, hxinf⟩ := fields_of_finite hx
  obtain ⟨hynan, hyinf⟩ := fields_of_finite hy
  change add x y = _
  simp only [add, hxnan, hxinf, hynan, hyinf, Bool.or_self, Bool.false_eq_true, if_false]

theorem natAbs_sum_le (x y : Binary64) :
    (x.signedUnits + y.signedUnits).natAbs ≤ units x.magnitude + units y.magnitude := by
  rw [← natAbs_signedUnits, ← natAbs_signedUnits]
  exact Int.natAbs_add_le _ _

theorem Within.add (hx : Within k x) (hy : Within k y) (hk : k + 1 ≤ 1000) :
    Within (k + 1) (x + y) := by
  rw [add_eq hx.1 hy.1]
  split
  next => exact within_of_zero (magnitude_ofMagnitude _ (by decide))
  next =>
    apply within_ofUnits hk _ Nat.one_pos
    calc (x.signedUnits + y.signedUnits).natAbs
        ≤ units x.magnitude + units y.magnitude := natAbs_sum_le x y
      _ ≤ 2 ^ k * one + 2 ^ k * one := Nat.add_le_add hx.2 hy.2
      _ = 2 ^ (k + 1) * one * 1 := by ring

theorem Within.sub (hx : Within k x) (hy : Within k y) (hk : k + 1 ≤ 1000) :
    Within (k + 1) (x - y) := hx.add hy.neg hk

theorem Within.mul {j : Nat} (hx : Within j x) (hy : Within k y) (hk : j + k ≤ 1000) :
    Within (j + k) (x * y) := by
  obtain ⟨hxnan, hxinf⟩ := hx.fields
  obtain ⟨hynan, hyinf⟩ := hy.fields
  change Within (j + k) (Binary64.mul x y)
  simp only [Binary64.mul, hxnan, hxinf, hynan, hyinf, Bool.or_self, Bool.false_eq_true, if_false]
  apply within_ofUnits hk _ one_pos
  calc units x.magnitude * units y.magnitude
      ≤ 2 ^ j * one * (2 ^ k * one) := Nat.mul_le_mul hx.2 hy.2
    _ = 2 ^ (j + k) * one * one := by ring

/-- A quotient is as large as the dividend is, measured by the divisor. -/
theorem within_div (hk : k ≤ 1000) (hx : x.isFinite = true) (hy : y.isFinite = true)
    (hzero : y.magnitude ≠ 0) (hle : units x.magnitude ≤ 2 ^ k * units y.magnitude) :
    Within k (x / y) := by
  obtain ⟨hxnan, hxinf⟩ := fields_of_finite hx
  obtain ⟨hynan, hyinf⟩ := fields_of_finite hy
  have hpos : 0 < units y.magnitude :=
    Nat.pos_of_ne_zero fun h => hzero (units_eq_zero h)
  change Within k (div x y)
  simp only [div, hxnan, hxinf, hynan, hyinf, hzero, Bool.or_self, Bool.false_eq_true, if_false]
  apply within_ofUnits hk _ hpos
  calc units x.magnitude * one ≤ 2 ^ k * units y.magnitude * one := Nat.mul_le_mul_right _ hle
    _ = 2 ^ k * one * units y.magnitude := by ring

end Bound

end Binary64
