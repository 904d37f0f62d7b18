import PowerForensics.Binary64.Numeral
import PowerForensics.Binary64.Quotient

/-! # Finite results

An integer of 64 bits is a finite number, with either sign, and so is the quotient of an
integer of 53 bits by a number that is at least one. A finite number stays finite when it
is written with a fixed number of places.
-/

namespace Binary64

/-- An integer, rounded to the nearest number. -/
def ofInt (n : Int) : Binary64 := ofUnits (n < 0) (n.natAbs * one) 1

theorem log2_le_log2 {a b : Nat} (hle : a ≤ b) : a.log2 ≤ b.log2 := by
  by_cases ha : a = 0
  · subst ha
    simp
  · have hb : b ≠ 0 := fun h => ha (Nat.le_zero.mp (h ▸ hle))
    exact (Nat.le_log2 hb).mpr ((Nat.log2_self_le ha).trans hle)

/-- A quotient far below the largest number is not rounded to infinity. -/
theorem roundMagnitude_lt_of_log2 {n d : Nat} (hlog : (n / d).log2 ≤ 2000) :
    roundMagnitude n d < infMagnitude := by
  unfold roundMagnitude
  refine lt_of_le_of_lt (min_le_left _ _) ?_
  have hquot : n / (d * 2 ^ ((n / d).log2 - 52)) < 2 ^ 53 := by
    rw [← Nat.div_div_eq_div_mul, Nat.div_lt_iff_lt_mul (Nat.two_pow_pos _), ← Nat.pow_add]
    exact (lt_two_pow_log2 _).trans_le (Nat.pow_le_pow_right (by decide) (by omega))
  have hround := roundHalfEven_le n (d * 2 ^ ((n / d).log2 - 52))
  have hinf : infMagnitude = 2047 * 2 ^ 52 := rfl
  omega

theorem isFinite_ofUnits {neg : Bool} {n d : Nat} (hlt : roundMagnitude n d < infMagnitude) :
    (ofUnits neg n d).isFinite = true := by
  rw [isFinite, magnitude_ofUnits]
  exact decide_eq_true hlt

theorem isFinite_ofNat {n : Nat} (hn : n < 2 ^ 64) : (ofNat n).isFinite = true :=
  isFinite_ofUnits (roundMagnitude_nat_lt hn)

theorem isFinite_ofInt {n : Int} (hn : n.natAbs < 2 ^ 64) : (ofInt n).isFinite = true :=
  isFinite_ofUnits (roundMagnitude_nat_lt hn)

theorem fields_of_finite {x : Binary64} (hx : x.isFinite) :
    x.isNaN = false ∧ x.isInfinite = false := by
  have hlt : x.magnitude < infMagnitude := of_decide_eq_true hx
  exact ⟨decide_eq_false (by omega), decide_eq_false (by omega)⟩

theorem isFinite_div {x y : Binary64} (hx : x.isFinite) (hy : y.isFinite)
    (hlog : (units x.magnitude).log2 ≤ 2000) (hone : one ≤ units y.magnitude) :
    (x / y).isFinite = true := by
  obtain ⟨hxnan, hxinf⟩ := fields_of_finite hx
  obtain ⟨hynan, hyinf⟩ := fields_of_finite hy
  have hzero : y.magnitude ≠ 0 := by
    intro h
    rw [h] at hone
    exact absurd one_pos (Nat.not_lt.mpr hone)
  change (div x y).isFinite = true
  unfold div
  simp only [hxnan, hxinf, hynan, hyinf, hzero, Bool.or_self, Bool.false_eq_true, if_false]
  apply isFinite_ofUnits
  apply roundMagnitude_lt_of_log2
  refine (log2_le_log2 ?_).trans hlog
  apply Nat.div_le_of_le_mul
  rw [Nat.mul_comm]
  exact Nat.mul_le_mul_right _ hone

section Integers

variable {n : Nat} (hn : n < 2 ^ 53)

include hn

theorem units_ofUnits (neg : Bool) : units (ofUnits neg (n * one) 1).magnitude = n * one := by
  rw [magnitude_ofUnits]
  rcases Nat.eq_zero_or_pos n with rfl | hpos
  · rw [Nat.zero_mul]
    simp [roundMagnitude, roundHalfEven, units]
  · exact units_ofNat_exact hpos hn

theorem log2_ofUnits (neg : Bool) : (units (ofUnits neg (n * one) 1).magnitude).log2 ≤ 2000 := by
  rw [units_ofUnits hn]
  rcases Nat.eq_zero_or_pos n with rfl | hpos
  · simp
  · have hlog := log2_le_of_lt hpos hn
    have hunit : unitExponent = 1074 := rfl
    rw [log2_mul_one hpos.ne']
    omega

end Integers

/-- The thousandth part of an integer. -/
theorem isFinite_ofInt_div_thousand {n : Int} (hn : n.natAbs < 2 ^ 53) :
    (ofInt n / 1000.0).isFinite = true := by
  refine isFinite_div (isFinite_ofInt (hn.trans (by decide))) patterns.2.2.2.2.1
    (log2_ofUnits hn _) ?_
  rw [units_thousand]
  exact Nat.le_mul_of_pos_left one (by decide)

/-- The ratio of two integers, of which the second is not zero. -/
theorem isFinite_ofNat_div {m n : Nat} (hm : m < 2 ^ 53) (hn : n < 2 ^ 53) (hpos : 0 < n) :
    (ofNat m / ofNat n).isFinite = true := by
  refine isFinite_div (isFinite_ofNat (hm.trans (by decide)))
    (isFinite_ofNat (hn.trans (by decide))) (log2_ofUnits hm _) ?_
  rw [ofNat, units_ofUnits hn]
  exact Nat.le_mul_of_pos_left one hpos

/-! ## Places -/

/-- A number that is no integer is below the significands. -/
theorem units_lt_of_not_dvd {mag : Nat} (hmag : ¬one ∣ units mag) : units mag < 2 ^ 53 * one := by
  unfold units at hmag ⊢
  split
  next hsmall =>
    have := one_pos
    calc mag < 2 ^ 53 * 1 := by omega
      _ ≤ 2 ^ 53 * one := Nat.mul_le_mul_left _ this
  next hnormal =>
    rw [if_neg hnormal] at hmag
    generalize mag / 2 ^ 52 - 1 = e at hmag
    have hexp : e < unitExponent := by
      by_contra hle
      rw [one] at hmag
      exact hmag (Dvd.dvd.mul_left (Nat.pow_dvd_pow 2 (Nat.not_lt.mp hle)) _)
    have hpow : 2 ^ e ≤ one := Nat.pow_le_pow_right (by decide) hexp.le
    calc (2 ^ 52 + mag % 2 ^ 52) * 2 ^ e ≤ (2 ^ 52 + mag % 2 ^ 52) * one :=
          Nat.mul_le_mul_left _ hpow
      _ < 2 ^ 53 * one := Nat.mul_lt_mul_of_pos_right (by omega) one_pos

/-- A finite number stays finite with a fixed number of places. -/
theorem isFinite_toPlaces (p : Nat) {x : Binary64} (hx : x.isFinite = true) :
    (x.toPlaces p).isFinite = true := by
  have hten : 0 < 10 ^ p := Nat.pow_pos (by decide)
  rw [toPlaces, ofDecimal_neg]
  apply isFinite_ofUnits
  by_cases hint : one ∣ units x.magnitude
  · obtain ⟨k, hk⟩ := hint
    have hplaces : roundHalfEven (units x.magnitude * 10 ^ p) one = k * 10 ^ p := by
      rw [hk, Nat.mul_comm one k, Nat.mul_right_comm]
      exact roundHalfEven_of_dvd _ _ one_pos
    have hround : roundMagnitude (k * 10 ^ p * one) (10 ^ p) = x.magnitude := by
      have heq : k * 10 ^ p * one * 1 = units x.magnitude * 10 ^ p := by
        rw [hk]
        ring
      rw [roundMagnitude_congr hten Nat.one_pos heq,
        roundMagnitude_units (le_of_lt (of_decide_eq_true hx))]
    rw [hplaces, hround]
    exact of_decide_eq_true hx
  · apply roundMagnitude_lt_of_log2
    have hlt := units_lt_of_not_dvd hint
    have hplaces : roundHalfEven (units x.magnitude * 10 ^ p) one ≤ 2 ^ 54 * 10 ^ p := by
      have hquot : units x.magnitude * 10 ^ p / one < 2 ^ 53 * 10 ^ p := by
        rw [Nat.div_lt_iff_lt_mul one_pos, Nat.mul_right_comm]
        exact Nat.mul_lt_mul_of_pos_right hlt hten
      have hle := roundHalfEven_le (units x.magnitude * 10 ^ p) one
      omega
    have hvalue : roundHalfEven (units x.magnitude * 10 ^ p) one * one / 10 ^ p ≤ 2 ^ 54 * one := by
      apply Nat.div_le_of_le_mul
      calc roundHalfEven (units x.magnitude * 10 ^ p) one * one ≤ 2 ^ 54 * 10 ^ p * one :=
            Nat.mul_le_mul_right _ hplaces
        _ = 10 ^ p * (2 ^ 54 * one) := by ring
    refine (log2_le_log2 hvalue).trans ?_
    have hlog : (2 ^ 54 * one).log2 = 54 + unitExponent := by
      rw [one, ← Nat.pow_add, Nat.log2_two_pow]
    rw [hlog]
    decide

end Binary64
