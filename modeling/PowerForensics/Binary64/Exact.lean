import PowerForensics.Binary64.Basic

/-! # Sums and integers without a rounding error

A value that needs no rounding is left as it is. Adding zero changes only a negative
zero, which no sum that started from zero ever is, and an unsigned integer that was
rounded once is read back as an integer that is rounded to the same number.
-/

namespace Binary64

/-! ## The value of a rounded number -/

/-- A significand at an exponent, also when the rounding has carried it to the next power
of two. -/
theorem units_scaled {m e : Nat} (hhigh : m ≤ 2 ^ 53) (hlow : e = 0 ∨ 2 ^ 52 ≤ m) :
    units (e * 2 ^ 52 + m) = m * 2 ^ e := by
  by_cases hsub : m < 2 ^ 52
  · obtain rfl : e = 0 := hlow.resolve_right (Nat.not_le.mpr hsub)
    rw [Nat.zero_mul, Nat.zero_add, units, if_pos hsub, Nat.pow_zero, Nat.mul_one]
  · have hnormal : ¬ e * 2 ^ 52 + m < 2 ^ 52 := by omega
    rw [units, if_neg hnormal]
    by_cases hcarry : m = 2 ^ 53
    · have hexp : (e * 2 ^ 52 + m) / 2 ^ 52 - 1 = e + 1 := by omega
      have hfrac : (e * 2 ^ 52 + m) % 2 ^ 52 = 0 := by omega
      rw [hexp, hfrac, hcarry, Nat.pow_succ]
      ring
    · have hexp : (e * 2 ^ 52 + m) / 2 ^ 52 - 1 = e := by omega
      have hfrac : 2 ^ 52 + (e * 2 ^ 52 + m) % 2 ^ 52 = m := by omega
      rw [hexp, hfrac]

theorem le_roundHalfEven (n d : Nat) : n / d ≤ roundHalfEven n d := by
  unfold roundHalfEven
  split
  · exact le_rfl
  split
  · exact Nat.le_succ _
  · exact Nat.le_add_right _ _

theorem roundHalfEven_le (n d : Nat) : roundHalfEven n d ≤ n / d + 1 := by
  unfold roundHalfEven
  split
  · exact Nat.le_succ _
  split
  · exact le_rfl
  · exact Nat.add_le_add_left (Nat.lt_succ_iff.mp (Nat.mod_lt _ (by decide))) _

/-- The significand that a number of units is rounded to. -/
def significand (n : Nat) : Nat := roundHalfEven n (2 ^ (n.log2 - 52))

theorem roundMagnitude_one (n : Nat) :
    roundMagnitude n 1 = min ((n.log2 - 52) * 2 ^ 52 + significand n) infMagnitude := by
  simp only [roundMagnitude, Nat.div_one, Nat.one_mul, significand]

theorem lt_two_pow_log2 (n : Nat) : n < 2 ^ (n.log2 + 1) := Nat.lt_log2_self

theorem significand_le (n : Nat) : significand n ≤ 2 ^ 53 := by
  have hpos : 0 < 2 ^ (n.log2 - 52) := by positivity
  have hquot : n / 2 ^ (n.log2 - 52) < 2 ^ 53 := by
    rw [Nat.div_lt_iff_lt_mul hpos, ← Nat.pow_add]
    exact (lt_two_pow_log2 n).trans_le (Nat.pow_le_pow_right (by decide) (by omega))
  exact (roundHalfEven_le _ _).trans hquot

theorem le_significand {n : Nat} (hn : 52 ≤ n.log2) : 2 ^ 52 ≤ significand n := by
  have hpos : 0 < 2 ^ (n.log2 - 52) := by positivity
  have hne : n ≠ 0 := by
    rintro rfl
    simp at hn
  refine le_trans ?_ (le_roundHalfEven _ _)
  rw [Nat.le_div_iff_mul_le hpos, ← Nat.pow_add, Nat.add_sub_cancel' hn]
  exact Nat.log2_self_le hne

/-- The value of what a number of units is rounded to, short of infinity. -/
theorem units_roundMagnitude {n : Nat} (hn : roundMagnitude n 1 < infMagnitude) :
    units (roundMagnitude n 1) = significand n * 2 ^ (n.log2 - 52) := by
  rw [roundMagnitude_one] at hn ⊢
  rw [min_eq_left (by omega)]
  apply units_scaled (significand_le n)
  by_cases hlog : 52 ≤ n.log2
  · exact Or.inr (le_significand hlog)
  · exact Or.inl (by omega)

/-- What is not zero is not rounded to zero. -/
theorem roundMagnitude_pos {n : Nat} (hn : 0 < n) : 0 < roundMagnitude n 1 := by
  rw [roundMagnitude_one]
  refine lt_min ?_ (by decide)
  by_cases hlog : 52 ≤ n.log2
  · have := le_significand hlog
    omega
  · have hexp : n.log2 - 52 = 0 := by omega
    have hsig : significand n = n := by
      rw [significand, hexp]
      simpa using roundHalfEven_of_dvd n 1 Nat.one_pos
    omega

/-! ## Adding zero -/

/-- Neither a negative zero nor a pattern of its own among those that are no number. -/
def Clean (x : Binary64) : Prop := x = nan ∨ x.isNaN = false ∧ x ≠ zero true

/-- What is read off the two zeros and off the pattern that is no number. -/
theorem constants : (0.0 : Binary64) = zero false ∧ zero false ≠ zero true ∧
    ((zero false).isNaN = false ∧ (zero false).isInfinite = false ∧
      (zero false).signedUnits = 0 ∧ (zero false).negative = false) ∧
    nan.isNaN = true ∧ nan + zero false = nan := patterns.1

theorem zero_literal : (0.0 : Binary64) = zero false := constants.1

theorem clean_zero : Clean 0.0 :=
  Or.inr ⟨zero_literal ▸ constants.2.2.1.1, zero_literal ▸ constants.2.1⟩

theorem units_eq_zero {mag : Nat} (hunits : units mag = 0) : mag = 0 := by
  unfold units at hunits
  split at hunits
  · exact hunits
  · have hpos : 0 < (2 ^ 52 + mag % 2 ^ 52) * 2 ^ (mag / 2 ^ 52 - 1) := by positivity
    omega

theorem eq_zero_of_magnitude {x : Binary64} (hmag : x.magnitude = 0) : x = zero x.negative := by
  rw [zero, ← hmag, ofMagnitude_eta]

theorem magnitude_ofUnits_ne_zero {x : Binary64} (hx : x.magnitude ≠ 0) (neg : Bool) :
    x ≠ zero neg := by
  rintro rfl
  exact hx (magnitude_ofMagnitude neg (by decide))

theorem signedUnits_neg {x : Binary64} (hneg : x.negative = true) :
    x.signedUnits = -(units x.magnitude : Int) := by
  rw [signedUnits, if_pos hneg]

theorem signedUnits_pos {x : Binary64} (hneg : x.negative = false) :
    x.signedUnits = units x.magnitude := by
  rw [signedUnits, if_neg (by simp [hneg])]

/-- Whatever is added to a clean number, the sum is clean. -/
theorem clean_add {x : Binary64} (y : Binary64) (hx : Clean x) : Clean (x + y) := by
  change Clean (add x y)
  unfold add
  split
  · exact Or.inl rfl
  next hnan =>
    rw [Bool.or_eq_true, not_or, Bool.not_eq_true, Bool.not_eq_true] at hnan
    split
    · split
      · exact Or.inl rfl
      · exact hx
    split
    next hinf =>
      refine Or.inr ⟨hnan.2, magnitude_ofUnits_ne_zero ?_ true⟩
      rw [of_decide_eq_true hinf]
      decide
    dsimp only
    split
    next hsum =>
      -- Two negative numbers cancel only if both are the negative zero.
      have hsign : (x.negative && y.negative) = false := by
        cases hxneg : x.negative with
        | false => rfl
        | true =>
            cases hyneg : y.negative with
            | false => rfl
            | true =>
                exfalso
                rw [signedUnits_neg hxneg, signedUnits_neg hyneg] at hsum
                have hzero := eq_zero_of_magnitude (x := x) (units_eq_zero (by omega))
                rw [hxneg] at hzero
                rcases hx with rfl | ⟨-, hne⟩
                · exact absurd (constants.2.2.2.1.symm.trans hnan.1) (by decide)
                · exact hne hzero
      rw [hsign]
      exact zero_literal ▸ clean_zero
    next hsum =>
      refine Or.inr ⟨isNaN_ofUnits _ _ _, magnitude_ofUnits_ne_zero ?_ true⟩
      rw [magnitude_ofUnits]
      exact (roundMagnitude_pos (by omega)).ne'

/-- A number that is no infinity has a finite value. -/
theorem magnitude_le {x : Binary64} (hx : x.isNaN = false) : x.magnitude ≤ infMagnitude := by
  simpa [isNaN] using hx

/-- Adding zero leaves a clean number as it is. -/
theorem add_zero_of_clean {x : Binary64} (hx : Clean x) : x + 0.0 = x := by
  rw [zero_literal]
  rcases hx with rfl | ⟨hnan, hne⟩
  · exact constants.2.2.2.2
  · obtain ⟨hzero, hfinite, hunits, hplus⟩ := constants.2.2.1
    change add x (zero false) = x
    simp only [add, hnan, hzero, hfinite, hunits, hplus, Bool.or_self, Bool.false_eq_true,
      if_false, Bool.false_and, Int.add_zero, Bool.and_false]
    split
    · rfl
    split
    next hsum =>
      have hmag : x.magnitude = 0 := by
        apply units_eq_zero
        cases hneg : x.negative with
        | false => rw [signedUnits_pos hneg] at hsum; omega
        | true => rw [signedUnits_neg hneg] at hsum; omega
      have hx := eq_zero_of_magnitude hmag
      cases hneg : x.negative with
      | false => rw [hx, hneg]
      | true => rw [hneg] at hx; exact absurd hx hne
    next hsum =>
      have hsign : decide (x.signedUnits < 0) = x.negative := by
        cases hneg : x.negative with
        | false => rw [signedUnits_pos hneg]; simp
        | true =>
            rw [signedUnits_neg hneg] at hsum ⊢
            simp only [decide_eq_true_eq]
            omega
      have habs : x.signedUnits.natAbs = units x.magnitude := by
        cases hneg : x.negative with
        | false => rw [signedUnits_pos hneg]; rfl
        | true => rw [signedUnits_neg hneg]; simp
      rw [hsign, habs]
      exact ofUnits_of_units (magnitude_le hnan) Nat.one_pos (Nat.mul_one _).symm

/-! ## Unsigned integers -/

theorem one_pos : 0 < one := by
  rw [one]
  exact Nat.two_pow_pos _

theorem log2_mul_one {n : Nat} (hn : n ≠ 0) : (n * one).log2 = n.log2 + unitExponent := by
  rw [Nat.log2_eq_iff (Nat.mul_pos (Nat.pos_of_ne_zero hn) one_pos).ne', one]
  constructor
  · rw [Nat.pow_add]
    exact Nat.mul_le_mul_right _ (Nat.log2_self_le hn)
  · rw [Nat.add_right_comm, Nat.pow_add]
    exact Nat.mul_lt_mul_of_pos_right (lt_two_pow_log2 n) (by positivity)

/-- An integer of 64 bits is not rounded to infinity. -/
theorem roundMagnitude_nat_lt {n : Nat} (hn : n < 2 ^ 64) :
    roundMagnitude (n * one) 1 < infMagnitude := by
  rw [roundMagnitude_one]
  refine lt_of_le_of_lt (min_le_left _ _) ?_
  have hsig := significand_le (n * one)
  have hlog : (n * one).log2 ≤ 63 + 1074 := by
    by_cases hzero : n = 0
    · subst hzero
      simp
    · rw [log2_mul_one hzero]
      have := (Nat.log2_lt hzero).mpr hn
      rw [unitExponent]
      omega
  have hinf : infMagnitude = 2047 * 2 ^ 52 := rfl
  omega

/-- The value of a rounded integer is an integer. -/
theorem one_dvd_units {n : Nat} (hlt : roundMagnitude (n * one) 1 < infMagnitude) :
    one ∣ units (roundMagnitude (n * one) 1) := by
  rw [units_roundMagnitude hlt, significand, one]
  generalize (n * 2 ^ unitExponent).log2 - 52 = e
  by_cases hexp : unitExponent ≤ e
  · exact Dvd.dvd.mul_left (Nat.pow_dvd_pow 2 hexp) _
  · obtain ⟨k, hk⟩ := Dvd.dvd.mul_left (Nat.pow_dvd_pow 2 (Nat.not_le.mp hexp).le) n
    have hround : roundHalfEven (n * 2 ^ unitExponent) (2 ^ e) = k := by
      rw [hk, Nat.mul_comm]
      exact roundHalfEven_of_dvd k _ (Nat.two_pow_pos e)
    rw [hround, Nat.mul_comm, ← hk]
    exact Nat.dvd_mul_left _ n

/-- A rounded integer of 64 bits is at most the power of two after it. -/
theorem units_nat_le {n : Nat} (hn : n < 2 ^ 64) :
    units (roundMagnitude (n * one) 1) / one ≤ 2 ^ 64 := by
  rw [units_roundMagnitude (roundMagnitude_nat_lt hn)]
  apply Nat.div_le_of_le_mul
  by_cases hzero : n = 0
  · subst hzero
    simp [significand, roundHalfEven]
  · have hlog := (Nat.log2_lt hzero).mpr hn
    have hexp : (n * one).log2 - 52 ≤ unitExponent + 11 := by
      rw [log2_mul_one hzero]
      omega
    calc significand (n * one) * 2 ^ ((n * one).log2 - 52)
        ≤ 2 ^ 53 * 2 ^ (unitExponent + 11) :=
          Nat.mul_le_mul (significand_le _) (Nat.pow_le_pow_right (by decide) hexp)
      _ = one * 2 ^ 64 := by
          rw [one, Nat.pow_add]
          ring

theorem toUnsigned_lt (w : Nat) (x : Binary64) : x.toUnsigned w < 2 ^ w := by
  have hpos := Nat.two_pow_pos w
  unfold toUnsigned
  split
  · exact hpos
  split
  · omega
  · omega

/-- An integer that was rounded is read back as one that is rounded in the same way. -/
theorem ofNat_toUnsigned_ofNat {n : Nat} (hn : n < 2 ^ 64) :
    ofNat ((ofNat n).toUnsigned 64) = ofNat n := by
  have hlt := roundMagnitude_nat_lt hn
  have hinf : (ofNat n).isInfinite = false := by
    simp only [isInfinite, ofNat, magnitude_ofUnits, decide_eq_false_iff_not]
    exact hlt.ne
  have hunsigned : (ofNat n).toUnsigned 64 =
      min (units (roundMagnitude (n * one) 1) / one) (2 ^ 64 - 1) := by
    simp only [toUnsigned, hinf]
    simp only [ofNat, isNaN_ofUnits, negative_ofUnits, magnitude_ofUnits, Bool.or_self,
      Bool.false_eq_true, if_false]
  obtain ⟨k, hk⟩ := one_dvd_units hlt
  have hround : ofNat k = ofNat n := by
    have hmag : roundMagnitude (k * one) 1 = roundMagnitude (n * one) 1 := by
      rw [Nat.mul_comm, ← hk]
      exact roundMagnitude_units hlt.le
    rw [ofNat, ofUnits, hmag]
    rfl
  have hle := units_nat_le hn
  rw [hk, Nat.mul_div_cancel_left k one_pos] at hle hunsigned
  rw [hunsigned, ← hround]
  by_cases htop : k = 2 ^ 64
  · subst htop
    rw [min_eq_right (by decide)]
    exact patterns.2.2.2.2.2.2.2.symm
  · rw [min_eq_left (by omega)]

/-- A positive integer is not rounded below one. -/
theorem one_le_ofNat {n : Nat} (hn : 0 < n) : (1.0 : Binary64) ≤ ofNat n := by
  obtain ⟨hone, hrank⟩ := patterns.2.2.1
  refine ⟨hone, isNaN_ofUnits _ _ _, ?_⟩
  rw [hrank, rank, ofNat, negative_ofUnits, magnitude_ofUnits, if_neg (by decide),
    roundMagnitude_one, log2_mul_one hn.ne']
  have hsig : 2 ^ 52 ≤ significand (n * one) := by
    apply le_significand
    rw [log2_mul_one hn.ne', unitExponent]
    omega
  have hexp : unitExponent = 1074 := rfl
  have hinf : infMagnitude = 2047 * 2 ^ 52 := rfl
  omega

end Binary64
