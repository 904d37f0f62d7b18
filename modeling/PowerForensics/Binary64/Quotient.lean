import PowerForensics.Binary64.Exact

/-! # Quotients and products of integers

An integer of at most 53 bits is a binary64 number. Dividing it by a thousand and
multiplying the quotient by a thousand rounds twice; with the integer aligned to the
left the two roundings are of integers, the first to a multiple of a thousand and the
second to a multiple of a power of two.
-/

namespace Binary64

/-! ## One rounding -/

/-- A quotient is rounded to the integer next to it once it is scaled to 53 bits. -/
theorem units_roundMagnitude_scaled {n d k : Nat} (hd : 0 < d) (hk : k ≤ unitExponent)
    (hlow : 2 ^ 52 * d ≤ n * 2 ^ k) (hhigh : n * 2 ^ k < 2 ^ 53 * d) :
    units (roundMagnitude (n * one) d) = roundHalfEven (n * 2 ^ k) d * 2 ^ (unitExponent - k) ∧
      roundMagnitude (n * one) d < infMagnitude := by
  obtain ⟨e, he⟩ := Nat.exists_eq_add_of_le hk
  have hscale : n * one = n * 2 ^ k * 2 ^ e := by rw [one, he, Nat.pow_add, Nat.mul_assoc]
  have hexp : unitExponent - k = e := by omega
  have hlog : (n * one / d).log2 = 52 + e := by
    have hle : 2 ^ (52 + e) ≤ n * one / d := by
      rw [Nat.le_div_iff_mul_le hd, hscale, Nat.pow_add, Nat.mul_right_comm]
      exact Nat.mul_le_mul_right _ hlow
    have hlt : n * one / d < 2 ^ (52 + e + 1) := by
      rw [Nat.div_lt_iff_lt_mul hd, hscale]
      calc n * 2 ^ k * 2 ^ e < 2 ^ 53 * d * 2 ^ e :=
            Nat.mul_lt_mul_of_pos_right hhigh (Nat.two_pow_pos e)
        _ = 2 ^ (52 + e + 1) * d := by
            rw [Nat.add_right_comm, Nat.pow_add, Nat.mul_right_comm]
    have hne : n * one / d ≠ 0 := ((Nat.two_pow_pos _).trans_le hle).ne'
    exact (Nat.log2_eq_iff hne).mpr ⟨hle, hlt⟩
  have hround : roundHalfEven (n * one) (d * 2 ^ e) = roundHalfEven (n * 2 ^ k) d := by
    rw [hscale, roundHalfEven_mul_right _ _ _ (Nat.two_pow_pos e)]
  have hquot : n * 2 ^ k / d < 2 ^ 53 := (Nat.div_lt_iff_lt_mul hd).mpr hhigh
  have hceil : roundHalfEven (n * 2 ^ k) d ≤ 2 ^ 53 := (roundHalfEven_le _ _).trans hquot
  have hfloor : 2 ^ 52 ≤ roundHalfEven (n * 2 ^ k) d :=
    le_trans ((Nat.le_div_iff_mul_le hd).mpr hlow) (le_roundHalfEven _ _)
  have hinf : infMagnitude = 2047 * 2 ^ 52 := rfl
  have hunit : unitExponent = 1074 := rfl
  have hmag : roundMagnitude (n * one) d = e * 2 ^ 52 + roundHalfEven (n * 2 ^ k) d := by
    simp only [roundMagnitude, hlog, Nat.add_sub_cancel_left, hround]
    exact min_eq_left (by omega)
  rw [hmag, hexp]
  exact ⟨units_scaled hceil (Or.inr hfloor), by omega⟩

/-! ## Integers of 53 bits -/

/-- The integer with its leading bit moved to the place of `2 ^ 52`. -/
def leftAligned (m : Nat) : Nat := m * 2 ^ (52 - m.log2)

section Aligned

variable {m : Nat} (hpos : 0 < m) (hlt : m < 2 ^ 53)

include hpos hlt

theorem log2_le_of_lt : m.log2 ≤ 52 := by
  have := (Nat.log2_lt hpos.ne').mpr hlt
  omega

theorem leftAligned_bounds : 2 ^ 52 ≤ leftAligned m ∧ leftAligned m < 2 ^ 53 := by
  have hlog := log2_le_of_lt hpos hlt
  have hlow := Nat.log2_self_le hpos.ne'
  have hhigh := lt_two_pow_log2 m
  unfold leftAligned
  constructor
  · calc 2 ^ 52 = 2 ^ m.log2 * 2 ^ (52 - m.log2) := by rw [← Nat.pow_add, Nat.add_sub_cancel' hlog]
      _ ≤ m * 2 ^ (52 - m.log2) := Nat.mul_le_mul_right _ hlow
  · calc m * 2 ^ (52 - m.log2) < 2 ^ (m.log2 + 1) * 2 ^ (52 - m.log2) :=
          Nat.mul_lt_mul_of_pos_right hhigh (Nat.two_pow_pos _)
      _ = 2 ^ 53 := by
          rw [← Nat.pow_add, show m.log2 + 1 + (52 - m.log2) = 53 by omega]

/-- The integer is not rounded. -/
theorem units_ofNat_exact : units (roundMagnitude (m * one) 1) = m * one := by
  have hlog := log2_le_of_lt hpos hlt
  obtain ⟨hlow, hhigh⟩ := leftAligned_bounds hpos hlt
  have hunit : unitExponent = 1074 := rfl
  have hscaled := (units_roundMagnitude_scaled (n := m) (k := 52 - m.log2) Nat.one_pos (by omega)
    (by rwa [Nat.mul_one]) (by rwa [Nat.mul_one])).1
  rw [hscaled]
  have hround : roundHalfEven (m * 2 ^ (52 - m.log2)) 1 = m * 2 ^ (52 - m.log2) := by
    simpa using roundHalfEven_of_dvd (m * 2 ^ (52 - m.log2)) 1 Nat.one_pos
  rw [hround, Nat.mul_assoc, ← Nat.pow_add, Nat.add_sub_cancel' (by omega), one]

end Aligned

/-! ## A thousand -/

theorem thousand_fields : (1000.0 : Binary64).isNaN = false ∧ (1000.0 : Binary64).isInfinite = false ∧
    (1000.0 : Binary64).negative = false ∧ (1000.0 : Binary64).magnitude ≠ 0 :=
  patterns.2.2.2.1

theorem units_thousand : units (1000.0 : Binary64).magnitude = 1000 * one :=
  patterns.2.2.2.2.2.1

/-- The quotient of a finite number that is not negative by a thousand. -/
theorem ofUnits_div_thousand {n d : Nat} (hfinite : roundMagnitude n d < infMagnitude) :
    ofUnits false n d / 1000.0 = ofUnits false (units (roundMagnitude n d)) 1000 := by
  obtain ⟨hnan, hinf, hneg, hzero⟩ := thousand_fields
  have hx : (ofUnits false n d).isInfinite = false := by
    simp only [isInfinite, magnitude_ofUnits, decide_eq_false_iff_not]
    exact hfinite.ne
  change div _ _ = _
  unfold div
  simp only [hnan, hinf, hneg, hx, hzero, isNaN_ofUnits, negative_ofUnits, magnitude_ofUnits,
    units_thousand, Bool.or_self, Bool.false_eq_true, if_false, bne_self_eq_false]
  rw [ofUnits, ofUnits, roundMagnitude_mul_right _ _ _ one_pos]

theorem ofUnits_mul_thousand {n d : Nat} (hfinite : roundMagnitude n d < infMagnitude) :
    ofUnits false n d * 1000.0 = ofUnits false (units (roundMagnitude n d) * 1000) 1 := by
  obtain ⟨hnan, hinf, hneg, -⟩ := thousand_fields
  have hx : (ofUnits false n d).isInfinite = false := by
    simp only [isInfinite, magnitude_ofUnits, decide_eq_false_iff_not]
    exact hfinite.ne
  have hone : units (roundMagnitude n d) * (1000 * one) =
      units (roundMagnitude n d) * 1000 * one := by ring
  change mul _ _ = _
  unfold mul
  simp only [hnan, hinf, hneg, hx, isNaN_ofUnits, negative_ofUnits, magnitude_ofUnits,
    units_thousand, Bool.or_self, Bool.false_eq_true, if_false, bne_self_eq_false, hone]
  rw [ofUnits, ofUnits,
    ← roundMagnitude_mul_right (units (roundMagnitude n d) * 1000) 1 one one_pos, Nat.one_mul]

theorem toUnsigned_ofUnits {n d : Nat} (hfinite : roundMagnitude n d < infMagnitude) (w : Nat) :
    (ofUnits false n d).toUnsigned w = min (units (roundMagnitude n d) / one) (2 ^ w - 1) := by
  have hx : (ofUnits false n d).isInfinite = false := by
    simp only [isInfinite, magnitude_ofUnits, decide_eq_false_iff_not]
    exact hfinite.ne
  simp only [toUnsigned, hx, isNaN_ofUnits, negative_ofUnits, magnitude_ofUnits, Bool.or_self,
    Bool.false_eq_true, if_false]

theorem toUnsigned_ofNat {n : Nat} (hn : n < 2 ^ 53) (w : Nat) :
    (ofNat n).toUnsigned w = min n (2 ^ w - 1) := by
  rcases Nat.eq_zero_or_pos n with rfl | hpos
  · rw [Nat.zero_min]
    simp [toUnsigned, magnitude_ofNat_zero, isInfinite, infMagnitude, units]
  · have hround := roundMagnitude_nat_lt (hn.trans (by decide))
    rw [ofNat, toUnsigned_ofUnits hround, units_ofNat_exact hpos hn, Nat.mul_div_cancel _ one_pos]

/-! ## Divided and multiplied again -/

/-- The quotient times a thousand, in the scale where the integer is aligned to the left and
moved by some places more. -/
def thousandfold (c j : Nat) : Nat := roundHalfEven (c * 2 ^ j) 1000 * 1000

/-- The aligned integer and its product stay in their binades. -/
structure InScale (c j : Nat) : Prop where
  low : 2 ^ 52 * 1000 ≤ c * 2 ^ j
  high : c * 2 ^ j < 2 ^ 53 * 1000
  prodLow : 2 ^ (52 + j) ≤ thousandfold c j
  prodHigh : thousandfold c j < 2 ^ (53 + j)

/-- An integer divided by a thousand and multiplied again is rounded twice. -/
theorem toUnsigned_thousandfold {m j : Nat} (hpos : 0 < m) (hlt : m < 2 ^ 53) (hj : j ≤ 10)
    (hscale : InScale (leftAligned m) j) :
    (ofNat m / 1000.0 * 1000.0).toUnsigned 64 =
      roundHalfEven (thousandfold (leftAligned m) j) (2 ^ j) / 2 ^ (52 - m.log2) := by
  have hunit : unitExponent = 1074 := rfl
  obtain ⟨w, hw⟩ : ∃ w, 52 - m.log2 = w := ⟨_, rfl⟩
  have haligned : leftAligned m * 2 ^ j = m * 2 ^ (w + j) := by
    rw [leftAligned, hw, Nat.pow_add, Nat.mul_assoc]
  obtain ⟨hquot, hquotFinite⟩ := units_roundMagnitude_scaled (n := m) (d := 1000) (k := w + j)
    (by decide) (by omega) (haligned ▸ hscale.low) (haligned ▸ hscale.high)
  rw [← haligned] at hquot
  have hfinite := roundMagnitude_nat_lt (hlt.trans (by decide : 2 ^ 53 < 2 ^ 64))
  -- the product, as a quotient of integers
  have hproduct : roundMagnitude
      (roundHalfEven (leftAligned m * 2 ^ j) 1000 * 2 ^ (unitExponent - (w + j)) * 1000) 1 =
        roundMagnitude (thousandfold (leftAligned m) j * one) (2 ^ (w + j)) := by
    apply roundMagnitude_congr Nat.one_pos (Nat.two_pow_pos _)
    have hone : one = 2 ^ (unitExponent - (w + j)) * 2 ^ (w + j) := by
      rw [← Nat.pow_add, Nat.sub_add_cancel (by omega), one]
    rw [hone, thousandfold]
    ring
  have hbinade : thousandfold (leftAligned m) j * 2 ^ w < 2 ^ 53 * 2 ^ (w + j) ∧
      2 ^ 52 * 2 ^ (w + j) ≤ thousandfold (leftAligned m) j * 2 ^ w := by
    have hsplit : ∀ a, 2 ^ (a + j) * 2 ^ w = 2 ^ a * 2 ^ (w + j) := by
      intro a
      rw [Nat.pow_add, Nat.mul_assoc, ← Nat.pow_add, Nat.add_comm j w]
    rw [← hsplit, ← hsplit]
    exact ⟨Nat.mul_lt_mul_of_pos_right hscale.prodHigh (Nat.two_pow_pos w),
      Nat.mul_le_mul_right _ hscale.prodLow⟩
  obtain ⟨hprod, hprodFinite⟩ := units_roundMagnitude_scaled (Nat.two_pow_pos (w + j))
    (by omega : w ≤ unitExponent) hbinade.2 hbinade.1
  have hround : roundHalfEven (thousandfold (leftAligned m) j * 2 ^ w) (2 ^ (w + j)) =
      roundHalfEven (thousandfold (leftAligned m) j) (2 ^ j) := by
    rw [Nat.add_comm w j, Nat.pow_add, roundHalfEven_mul_right _ _ _ (Nat.two_pow_pos w)]
  rw [hround] at hprod
  have hdiv : ofNat m / 1000.0 = ofUnits false (m * one) 1000 := by
    rw [ofNat, ofUnits_div_thousand hfinite, units_ofNat_exact hpos hlt]
  rw [hdiv, ofUnits_mul_thousand hquotFinite, hquot,
    toUnsigned_ofUnits (by rw [hproduct]; exact hprodFinite), hproduct, hprod, hw]
  have hone : one = 2 ^ w * 2 ^ (unitExponent - w) := by
    rw [← Nat.pow_add, Nat.add_sub_cancel' (by omega), one]
  rw [hone, Nat.mul_div_mul_right _ _ (Nat.two_pow_pos _)]
  apply min_eq_left
  have hceil : roundHalfEven (thousandfold (leftAligned m) j) (2 ^ j) ≤ 2 ^ 53 :=
    (roundHalfEven_le _ _).trans
      ((Nat.div_lt_iff_lt_mul (Nat.two_pow_pos j)).mpr (Nat.pow_add 2 53 j ▸ hscale.prodHigh))
  exact (Nat.div_le_self _ _).trans (hceil.trans (by decide))

/-- The remainder of the aligned integer that decides how the quotient is rounded. -/
def thousandRemainder (m : Nat) : Nat := leftAligned m * 512 % 1000

/-- The integers that are the same again. Those whose leading bits are below a thousand in
1024 are; the others if the quotient is rounded by little downwards or, where the integer has
room for a fraction, upwards. -/
def ThousandSurvives (m : Nat) : Prop :=
  m = 0 ∨ leftAligned m * 512 < 2 ^ 52 * 1000 ∨
    (m < 2 ^ 52 ∧ (thousandRemainder m ≤ 256 ∨ 500 < thousandRemainder m)) ∨
    (2 ^ 52 ≤ m ∧ (thousandRemainder m < 256 ∨ 744 < thousandRemainder m ∨
      m % 2 = 0 ∧ (thousandRemainder m = 256 ∨ thousandRemainder m = 744)))

instance (m : Nat) : Decidable (ThousandSurvives m) := by
  unfold ThousandSurvives
  infer_instance

/-- With one place more the second rounding undoes the first. -/
theorem roundHalfEven_thousandfold_ten {c : Nat} :
    roundHalfEven (thousandfold c 10) (2 ^ 10) = c := by
  unfold thousandfold roundHalfEven
  split
  · split
    · omega
    split <;> omega
  split
  · split
    · omega
    split <;> omega
  · omega

/-- The multiple of a thousand next to the aligned integer; a tie is not possible. -/
theorem thousandfold_nine (c : Nat) :
    c * 512 % 1000 < 500 ∧ thousandfold c 9 + c * 512 % 1000 = c * 512 ∨
      500 < c * 512 % 1000 ∧ thousandfold c 9 + c * 512 % 1000 = c * 512 + 1000 := by
  unfold thousandfold roundHalfEven
  split
  · omega
  split
  · omega
  · omega

/-- Where the second rounding ends, by the error of the first. -/
theorem roundHalfEven_thousandfold_nine (c : Nat) :
    roundHalfEven (thousandfold c 9) (2 ^ 9) =
      if c * 512 % 1000 < 256 then c
      else if c * 512 % 1000 = 256 then c - c % 2
      else if c * 512 % 1000 < 500 then c - 1
      else if c * 512 % 1000 < 744 then c + 1
      else if c * 512 % 1000 = 744 then c + c % 2
      else c := by
  have hmultiple := thousandfold_nine c
  have hremainder : c * 512 % 1000 < 1000 := Nat.mod_lt _ (by decide)
  have hplaces : 2 ^ 9 = 512 := rfl
  generalize thousandfold c 9 = N at hmultiple
  generalize c * 512 % 1000 = r at hmultiple hremainder
  unfold roundHalfEven
  rw [hplaces]
  split_ifs <;> omega

/-- The first rounding moves the aligned integer by at most half a thousand. -/
theorem thousandfold_near (c j : Nat) :
    c * 2 ^ j ≤ thousandfold c j + 500 ∧ thousandfold c j ≤ c * 2 ^ j + 500 := by
  unfold thousandfold roundHalfEven
  generalize c * 2 ^ j = n
  split
  · omega
  split
  · omega
  · omega

theorem inScale_ten {c : Nat} (hlow : 2 ^ 52 ≤ c) (hhigh : c * 512 < 2 ^ 52 * 1000) :
    InScale c 10 := by
  obtain ⟨hdown, hup⟩ := thousandfold_near c 10
  have h62 : 2 ^ (52 + 10) = 2 ^ 52 * 1024 := rfl
  have h63 : 2 ^ (53 + 10) = 2 ^ 52 * 2048 := rfl
  refine ⟨by linarith, by linarith, ?_, by rw [h63]; linarith⟩
  -- at the power of two itself the first rounding is upwards
  rcases hlow.eq_or_lt with rfl | hlt
  · decide
  · rw [h62]
    linarith

theorem inScale_nine {c : Nat} (hlow : 2 ^ 52 * 1000 ≤ c * 512) (hhigh : c < 2 ^ 53) :
    InScale c 9 := by
  obtain ⟨hdown, hup⟩ := thousandfold_near c 9
  have h61 : 2 ^ (52 + 9) = 2 ^ 52 * 512 := rfl
  have h62 : 2 ^ (53 + 9) = 2 ^ 53 * 512 := rfl
  exact ⟨by linarith, by linarith, by rw [h61]; linarith, by rw [h62]; linarith⟩

/-- An integer of 53 bits that is divided by a thousand, multiplied by a thousand and truncated
is the same again exactly if it survives. -/
theorem toUnsigned_thousand_iff {m : Nat} (hlt : m < 2 ^ 53) :
    (ofNat m / 1000.0 * 1000.0).toUnsigned 64 = m ↔ ThousandSurvives m := by
  rcases Nat.eq_zero_or_pos m with rfl | hpos
  · exact iff_of_true patterns.2.2.2.2.2.2.1 (Or.inl rfl)
  obtain ⟨hlow, hhigh⟩ := leftAligned_bounds hpos hlt
  have hlog := log2_le_of_lt hpos hlt
  have hdiv : leftAligned m / 2 ^ (52 - m.log2) = m := Nat.mul_div_cancel m (Nat.two_pow_pos _)
  by_cases hleading : leftAligned m * 512 < 2 ^ 52 * 1000
  · -- the second rounding is coarser than the error of the first
    rw [toUnsigned_thousandfold hpos hlt (by decide) (inScale_ten hlow hleading),
      roundHalfEven_thousandfold_ten, hdiv]
    exact iff_of_true rfl (Or.inr (Or.inl hleading))
  · rw [toUnsigned_thousandfold hpos hlt (by decide) (inScale_nine (Nat.not_lt.mp hleading) hhigh),
      roundHalfEven_thousandfold_nine]
    have hremainder : thousandRemainder m = leftAligned m * 512 % 1000 := rfl
    have hbelow : (leftAligned m - 1) / 2 ^ (52 - m.log2) ≠ m := by
      refine (Nat.div_lt_of_lt_mul ?_).ne
      rw [Nat.mul_comm]
      exact Nat.sub_lt (Nat.lt_of_lt_of_le (by decide) hlow) (by decide)
    have htie : leftAligned m * 512 % 1000 ≠ 500 := by omega
    unfold ThousandSurvives
    rw [hremainder, or_iff_right hpos.ne', or_iff_right hleading]
    generalize leftAligned m * 512 % 1000 = r at htie
    by_cases hroom : m < 2 ^ 52
    · -- the integer has room for a fraction
      have hwide : 0 < 52 - m.log2 := by
        have := (Nat.log2_lt hpos.ne').mpr hroom
        omega
      have heven : leftAligned m % 2 = 0 := by
        obtain ⟨w, hw⟩ := Nat.exists_eq_add_of_le' hwide
        rw [leftAligned, hw, Nat.pow_succ, ← Nat.mul_assoc, Nat.mul_mod_left]
      have habove : (leftAligned m + 1) / 2 ^ (52 - m.log2) = m := by
        rw [leftAligned, Nat.mul_comm, Nat.mul_add_div (Nat.two_pow_pos _),
          Nat.div_eq_of_lt (Nat.one_lt_two_pow hwide.ne'), Nat.add_zero]
      rw [and_iff_right hroom, or_iff_left (fun h => absurd h.1 (Nat.not_le.mpr hroom)), heven,
        Nat.sub_zero, Nat.add_zero]
      split_ifs
      · exact iff_of_true hdiv (by omega)
      · exact iff_of_true hdiv (by omega)
      · exact iff_of_false hbelow (by omega)
      · exact iff_of_true habove (by omega)
      · exact iff_of_true hdiv (by omega)
      · exact iff_of_true hdiv (by omega)
    · have hwidth : 52 - m.log2 = 0 := by
        have hbig := (Nat.le_log2 hpos.ne').mpr (Nat.not_lt.mp hroom)
        omega
      have hsame : leftAligned m = m := by rw [leftAligned, hwidth, Nat.pow_zero, Nat.mul_one]
      rw [or_iff_right (fun h => hroom h.1), and_iff_right (Nat.not_lt.mp hroom), hwidth,
        Nat.pow_zero, Nat.div_one, hsame]
      split_ifs <;> omega

end Binary64
