import PowerForensics.Binary64.Halves

/-! # Numbers of one sign

Sums and middles of numbers that have one sign bit have it too, and sums and middles of zeros are
zeros. The sign bit of a zero does not say on which side of zero it is: it is on none.
-/

namespace Binary64

variable {x y : Binary64} {neg : Bool}

/-- A number with a sign bit. -/
structure Signed (neg : Bool) (x : Binary64) : Prop where
  number : x.isNaN = false
  sign : x.negative = neg

theorem Signed.half (hx : Signed neg x) : Signed neg (x * 0.5) := by
  obtain ⟨hnan, hneg, -⟩ := half_fields_eq hx.number
  exact ⟨hnan, hneg.trans hx.sign⟩

theorem Signed.add (hx : Signed neg x) (hy : Signed neg y) : Signed neg (x + y) := by
  have hnan := isNaN_add hx.number hy.number fun _ _ => hx.sign.trans hy.sign.symm
  refine ⟨hnan, ?_⟩
  rcases finite_or_infinite hx.number with hxfin | hxinf
  · rcases finite_or_infinite hy.number with hyfin | hyinf
    · rw [add_eq hxfin hyfin]
      split
      -- an exact sum of nothing is a zero with the sign bit of both
      next => rw [zero, negative_ofMagnitude _ (by decide), hx.sign, hy.sign, Bool.and_self]
      next hsum =>
        rw [negative_ofUnits]
        cases neg with
        | false =>
            rw [signedUnits_pos hx.sign, signedUnits_pos hy.sign]
            exact decide_eq_false (by omega)
        | true =>
            rw [signedUnits_neg hx.sign, signedUnits_neg hy.sign] at hsum ⊢
            exact decide_eq_true (by omega)
    · rw [add_comm_number] at hnan ⊢
      rw [add_of_infinite hyinf hnan, hy.sign]
  · rw [add_of_infinite hxinf hnan, hx.sign]

theorem Signed.middle (hx : Signed neg x) (hy : Signed neg y) : Signed neg (middle x y) :=
  hx.half.add hy.half

/-! ## Zeros -/

theorem equals_zero_iff : x.equals 0.0 = true ↔ x.magnitude = 0 := by
  obtain ⟨hzero, hnumber, -⟩ := literal_fields
  rw [equals, hnumber, hzero, Bool.not_false, Bool.and_true, Bool.and_eq_true, beq_iff_eq]
  constructor
  · rintro ⟨-, hrank⟩
    rw [rank] at hrank
    split at hrank <;> omega
  · intro hmag
    exact ⟨by rw [not_nan_of_zero hmag]; rfl, rank_of_zero hmag⟩

theorem add_of_zeros (hx : x.magnitude = 0) (hy : y.magnitude = 0) : (x + y).magnitude = 0 := by
  have hfin : ∀ {z : Binary64}, z.magnitude = 0 → z.isFinite = true := by
    intro z hz
    rw [isFinite, hz]
    decide
  rw [add_eq (hfin hx) (hfin hy), signedUnits_of_zero hx, signedUnits_of_zero hy,
    if_pos (Int.add_zero 0), magnitude_zero]

theorem half_of_zero (hx : x.magnitude = 0) : (x * 0.5).magnitude = 0 := by
  obtain ⟨-, -, hmag⟩ := half_fields_eq (not_nan_of_zero hx)
  rw [hmag, hx, halfMagnitude_zero]

theorem middle_of_zeros (hx : x.magnitude = 0) (hy : y.magnitude = 0) :
    (middle x y).magnitude = 0 :=
  add_of_zeros (half_of_zero hx) (half_of_zero hy)

/-- A number with a sign bit that is not a zero is on one side of zero. -/
theorem Signed.side (hx : Signed neg x) (hne : x.magnitude ≠ 0) :
    if neg then x < 0.0 else (0.0 : Binary64) < x := by
  obtain ⟨hzero, hnumber, -⟩ := literal_fields
  cases neg with
  | false =>
      refine ⟨hnumber, hx.number, ?_⟩
      rw [hzero, rank, hx.sign, if_neg Bool.false_ne_true]
      omega
  | true =>
      refine ⟨hx.number, hnumber, ?_⟩
      rw [hzero, rank, hx.sign, if_pos rfl]
      omega

theorem not_side_of_zero (hx : x.magnitude = 0) : ¬ (0.0 : Binary64) < x ∧ ¬ x < 0.0 := by
  have hzero := literal_fields.1
  have hrank := rank_of_zero hx
  constructor
  · rintro ⟨-, -, hlt⟩
    omega
  · rintro ⟨-, -, hlt⟩
    omega

/-! ## The places of half a count -/

/-- Half of a count is at most the greatest power of two in it. -/
theorem units_half_le {k : Nat} (hpos : 0 < k) (hk : k < 2 ^ 64) :
    units (ofNat k * 0.5).magnitude ≤ 2 ^ k.log2 * one := by
  have hlog : k.log2 < 64 := (Nat.log2_lt hpos.ne').mpr hk
  have hmag := (half_fields_eq (x := ofNat k) (isNaN_ofUnits _ _ _)).2.2
  rw [ofNat, magnitude_ofUnits, ← ofNat] at hmag
  have hlt := roundMagnitude_nat_lt hk
  obtain ⟨n, hn⟩ := one_dvd_units hlt
  rw [Nat.mul_comm one n] at hn
  have hunits := units_halfMagnitude hlt hn
  rw [← hmag] at hunits
  have hnext : k * one ≤ 2 ^ (k.log2 + 1) * one * 1 := by
    rw [Nat.mul_one]
    exact Nat.mul_le_mul_right _ Nat.lt_log2_self.le
  have hwithin := (within_ofUnits (k := k.log2 + 1) (by omega) false Nat.one_pos hnext).2
  rw [magnitude_ofUnits, hn, ← hunits, Nat.pow_succ, Nat.mul_right_comm, Nat.mul_comm] at hwithin
  exact Nat.le_of_mul_le_mul_right hwithin (by decide)

/-- A count below a power of two is read back below it. -/
theorem toUnsigned_le_two_pow {c e : Nat} (he : e < 64) (hc : c ≤ 2 ^ e) :
    (ofUnits false (c * one) 1).toUnsigned 64 ≤ 2 ^ e := by
  have hcount : c * one ≤ 2 ^ e * one * 1 := by
    rw [Nat.mul_one]
    exact Nat.mul_le_mul_right _ hc
  have hwithin := (within_ofUnits (k := e) (by omega) false Nat.one_pos hcount).2
  rw [magnitude_ofUnits] at hwithin
  have hquot := Nat.div_le_of_le_mul (hwithin.trans_eq (Nat.mul_comm _ _))
  have hlt := hc.trans_lt (Nat.pow_lt_pow_right Nat.one_lt_two he)
  rw [toUnsigned_ofUnits (roundMagnitude_nat_lt hlt)]
  exact (min_le_left _ _).trans hquot

/-- Half of a count, rounded in either direction, is no more than the count. -/
theorem half_count_le (k : Nat) :
    (0.5 * ofNat k).floor.toUnsigned 64 ≤ k ∧ (0.5 * ofNat k).ceil.toUnsigned 64 ≤ k := by
  rcases Nat.eq_zero_or_pos k with rfl | hpos
  · decide +kernel
  by_cases hlarge : 2 ^ 64 ≤ k
  · exact ⟨((toUnsigned_lt 64 _).trans_le hlarge).le, ((toUnsigned_lt 64 _).trans_le hlarge).le⟩
  have hk : k < 2 ^ 64 := Nat.not_le.mp hlarge
  have hlog : k.log2 < 64 := (Nat.log2_lt hpos.ne').mpr hk
  have hpow : 2 ^ k.log2 ≤ k := Nat.log2_self_le hpos.ne'
  have hneg := (half_fields_eq (x := ofNat k) (isNaN_ofUnits _ _ _)).2.1
  rw [ofNat, negative_ofUnits, ← ofNat] at hneg
  have hfin := finite_of_low_of_high (low_half (low_of_finite (isFinite_ofNat hk)))
    (high_half (high_of_finite (isFinite_ofNat hk)))
  have hle := units_half_le hpos hk
  rw [mul_comm_number]
  generalize ofNat k * 0.5 = r at hneg hfin hle
  have hbelow := Nat.div_le_of_le_mul (hle.trans_eq (Nat.mul_comm _ _))
  have habove : (units r.magnitude + one - 1) / one < 2 ^ k.log2 + 1 := by
    rw [Nat.div_lt_iff_lt_mul one_pos, Nat.succ_mul]
    exact (Nat.sub_le_sub_right (Nat.add_le_add_right hle one) 1).trans_lt
      (Nat.sub_lt (Nat.add_pos_right _ one_pos) Nat.one_pos)
  rw [floor_eq hfin hneg, ceil_eq hfin hneg]
  constructor
  · exact (toUnsigned_le_two_pow hlog hbelow).trans hpow
  · exact (toUnsigned_le_two_pow hlog (Nat.lt_succ_iff.mp habove)).trans hpow

end Binary64
