import PowerForensics.Binary64.Halves

/-! # Blends

A number between two others is taken as the sum of both with weights that make up one. The products
and the sum are rounded, each by at most half the distance to the next number, so that the blend of
a number with itself is the number or one next to it.
-/

namespace Binary64

/-! ## The error of a rounding -/

section Rounding

variable {n d m : Nat}

theorem roundHalfEven_error (n : Nat) (hd : 0 < d) :
    2 * (roundHalfEven n d * d) ≤ 2 * n + d ∧ 2 * n ≤ 2 * (roundHalfEven n d * d) + d := by
  have hsplit : n / d * d + n % d = n := Nat.div_add_mod' n d
  have hlt : n % d < d := Nat.mod_lt n hd
  unfold roundHalfEven
  split
  · constructor <;> omega
  split
  · rw [Nat.add_mul, Nat.one_mul]
    constructor <;> omega
  · rcases Nat.mod_two_eq_zero_or_one (n / d) with heven | hodd
    · rw [heven, Nat.add_zero]
      constructor <;> omega
    · rw [hodd, Nat.add_mul, Nat.one_mul]
      constructor <;> omega

/-- The units from a magnitude to the next one. -/
def spacing (mag : Nat) : Nat := 2 ^ (mag / 2 ^ 52 - 1)

theorem units_succ (mag : Nat) : units (mag + 1) = units mag + spacing mag := by
  have hmod : mag % 2 ^ 52 < 2 ^ 52 := Nat.mod_lt _ (by decide)
  by_cases hsub : mag < 2 ^ 52
  · have hzero : mag / 2 ^ 52 = 0 := Nat.div_eq_of_lt hsub
    have hnext : units (0 * 2 ^ 52 + (mag + 1)) = (mag + 1) * 2 ^ 0 :=
      units_scaled (by omega) (Or.inl rfl)
    rw [Nat.zero_mul, Nat.zero_add, Nat.pow_zero, Nat.mul_one] at hnext
    rw [hnext, units, if_pos hsub, spacing, hzero, Nat.zero_sub, Nat.pow_zero]
  · have hexp : mag = (mag / 2 ^ 52 - 1) * 2 ^ 52 + (2 ^ 52 + mag % 2 ^ 52) := by omega
    have hthis : units ((mag / 2 ^ 52 - 1) * 2 ^ 52 + (2 ^ 52 + mag % 2 ^ 52)) =
        (2 ^ 52 + mag % 2 ^ 52) * spacing mag :=
      units_scaled (by omega) (Or.inr (by omega))
    have hnext : units ((mag / 2 ^ 52 - 1) * 2 ^ 52 + (2 ^ 52 + mag % 2 ^ 52 + 1)) =
        (2 ^ 52 + mag % 2 ^ 52 + 1) * spacing mag :=
      units_scaled (by omega) (Or.inr (by omega))
    rw [← hexp] at hthis
    rw [← Nat.add_assoc, ← hexp] at hnext
    rw [hnext, hthis, Nat.add_mul _ 1, Nat.one_mul]

theorem units_succ_le (mag : Nat) : units (mag + 1) ≤ 2 ^ 53 * spacing mag := by
  have hmod : mag % 2 ^ 52 < 2 ^ 52 := Nat.mod_lt _ (by decide)
  have hpos : 0 < spacing mag := Nat.two_pow_pos _
  rw [units_succ, units]
  split
  · calc mag + spacing mag ≤ 2 ^ 52 * spacing mag + 1 * spacing mag := by
          rw [Nat.one_mul]
          refine Nat.add_le_add_right ?_ _
          exact (by omega : mag ≤ 2 ^ 52).trans (Nat.le_mul_of_pos_right _ hpos)
      _ ≤ 2 ^ 53 * spacing mag := by
          rw [← Nat.add_mul]
          exact Nat.mul_le_mul_right _ (by decide)
  · calc (2 ^ 52 + mag % 2 ^ 52) * spacing mag + spacing mag
        = (2 ^ 52 + mag % 2 ^ 52 + 1) * spacing mag := by rw [Nat.add_mul _ 1, Nat.one_mul]
      _ ≤ 2 ^ 53 * spacing mag := Nat.mul_le_mul_right _ (by omega)

/-- What is below the number behind a magnitude is rounded by at most half the distance to it. -/
theorem units_round_error (hd : 0 < d) (hlt : n < units (m + 1) * d)
    (hfinite : roundMagnitude n d < infMagnitude) :
    2 * (units (roundMagnitude n d) * d) ≤ 2 * n + spacing m * d ∧
      2 * n ≤ 2 * (units (roundMagnitude n d) * d) + spacing m * d := by
  set e := (n / d).log2 - 52 with he
  have hspacing : 2 ^ e ≤ spacing m := by
    have hquot : n / d < 2 ^ (53 + (m / 2 ^ 52 - 1)) := by
      rw [Nat.pow_add]
      exact ((Nat.div_lt_iff_lt_mul hd).mpr hlt).trans_le (units_succ_le m)
    refine Nat.pow_le_pow_right (by decide) ?_
    rcases Nat.eq_zero_or_pos (n / d) with hzero | hpos
    · rw [he, hzero, Nat.log2_zero]
      omega
    · have := (Nat.log2_lt hpos.ne').mpr hquot
      omega
  have hunits : units (roundMagnitude n d) = roundHalfEven n (d * 2 ^ e) * 2 ^ e := by
    have hmag : roundMagnitude n d = e * 2 ^ 52 + roundHalfEven n (d * 2 ^ e) := by
      unfold roundMagnitude at hfinite ⊢
      exact min_eq_left_of_lt ((min_lt_iff.mp hfinite).resolve_right (lt_irrefl _))
    rw [hmag]
    refine units_scaled quotient_significand_le ?_
    by_cases hlog : 52 ≤ (n / d).log2
    · exact Or.inr (le_quotient_significand hlog)
    · exact Or.inl (by omega)
  obtain ⟨hhigh, hlow⟩ := roundHalfEven_error n (Nat.mul_pos hd (Nat.two_pow_pos e))
  have hterm : roundHalfEven n (d * 2 ^ e) * (d * 2 ^ e) = units (roundMagnitude n d) * d := by
    rw [hunits]
    ring
  have hstep : d * 2 ^ e ≤ spacing m * d := by
    rw [Nat.mul_comm d]
    exact Nat.mul_le_mul_right _ hspacing
  rw [hterm] at hhigh hlow
  omega

end Rounding
/-! ## Weights -/

/-- Two numbers that make up one. -/
structure Weights (c w : Binary64) : Prop where
  left : Plus c ∧ c.isFinite = true ∧ c.magnitude ≠ 0
  right : Plus w ∧ w.isFinite = true ∧ w.magnitude ≠ 0
  sum : units c.magnitude + units w.magnitude = one

instance (x : Binary64) : Decidable (Plus x) :=
  inferInstanceAs (Decidable (x.isNaN = false ∧ x.negative = false))

instance (c w : Binary64) : Decidable (Weights c w) :=
  decidable_of_iff ((Plus c ∧ c.isFinite = true ∧ c.magnitude ≠ 0) ∧
      (Plus w ∧ w.isFinite = true ∧ w.magnitude ≠ 0) ∧ units c.magnitude + units w.magnitude = one)
    ⟨fun h => ⟨h.1, h.2.1, h.2.2⟩, fun h => ⟨h.left, h.right, h.sum⟩⟩

/-- What a magnitude becomes when it is weighed. -/
def weighted (c : Binary64) (mag : Nat) : Nat :=
  roundMagnitude (units mag * units c.magnitude) one

section Weighted

variable {c w x y : Binary64} {mag : Nat}

theorem Weights.symm (h : Weights c w) : Weights w c :=
  ⟨h.right, h.left, (Nat.add_comm _ _).trans h.sum⟩

theorem Weights.lt_one (h : Weights c w) : units c.magnitude < one := by
  have hpos := units_pos h.right.2.2
  have hsum := h.sum
  omega

theorem weighted_mono {m n : Nat} (hle : m ≤ n) : weighted c m ≤ weighted c n :=
  roundMagnitude_mono one_pos one_pos
    (Nat.mul_le_mul_right _ (Nat.mul_le_mul_right _ (units_mono hle)))

theorem Weights.weighted_le (h : Weights c w) (hmag : mag ≤ infMagnitude) :
    weighted c mag ≤ mag := by
  calc weighted c mag ≤ roundMagnitude (units mag) 1 := by
        refine roundMagnitude_mono one_pos Nat.one_pos ?_
        rw [Nat.mul_one]
        exact Nat.mul_le_mul_left _ h.lt_one.le
    _ = mag := roundMagnitude_units hmag

/-- A product with a weight. -/
theorem Weights.mul_eq (h : Weights c w) (hx : x.isFinite = true) :
    x * c = ofMagnitude x.negative (weighted c x.magnitude) := by
  obtain ⟨hxnan, hxinf⟩ := fields_of_finite hx
  obtain ⟨hcnan, hcinf⟩ := fields_of_finite h.left.2.1
  change mul x c = _
  simp only [mul, hxnan, hcnan, hxinf, hcinf, h.left.1.2, Bool.or_self, Bool.false_eq_true,
    if_false, Bool.bne_false]
  rfl

theorem Weights.product (h : Weights c w) (hx : x.isFinite = true) :
    (x * c).isFinite = true ∧ (x * c).negative = x.negative ∧
      (x * c).magnitude = weighted c x.magnitude := by
  have hlt : x.magnitude < infMagnitude := of_decide_eq_true hx
  have hle := h.weighted_le hlt.le
  have hfits : weighted c x.magnitude < 2 ^ 63 := roundMagnitude_lt _ _
  have hmag := magnitude_ofMagnitude x.negative hfits
  rw [h.mul_eq hx]
  refine ⟨decide_eq_true ?_, negative_ofMagnitude _ hfits, hmag⟩
  rw [hmag]
  exact hle.trans_lt hlt

theorem Weights.mul_mono (h : Weights c w) (hx : x.isFinite = true) (hy : y.isFinite = true)
    (hle : x ≤ y) : x * c ≤ y * c := by
  obtain ⟨hxfin, hxneg, hxmag⟩ := h.product hx
  obtain ⟨hyfin, hyneg, hymag⟩ := h.product hy
  refine ⟨(fields_of_finite hxfin).1, (fields_of_finite hyfin).1, ?_⟩
  have hrank := hle.2.2
  rw [rank, rank, hxneg, hyneg, hxmag, hymag]
  unfold rank at hrank
  split_ifs at hrank ⊢ with hx hy hy
  · have := weighted_mono (c := c) (m := y.magnitude) (n := x.magnitude) (by omega)
    omega
  · omega
  · have hzero : x.magnitude = 0 ∧ y.magnitude = 0 := by omega
    have hweighted : weighted c 0 = 0 := Nat.le_zero.mp (h.weighted_le (Nat.zero_le _))
    rw [hzero.1, hzero.2, hweighted]
    rfl
  · have := weighted_mono (c := c) (m := x.magnitude) (n := y.magnitude) (by omega)
    omega

/-! ## Blends -/

/-- Two numbers that are weighed and added. -/
def blend (c w x y : Binary64) : Binary64 := x * c + y * w

theorem Weights.blend_mono {x' y' : Binary64} (h : Weights c w) (hx : x.isFinite = true)
    (hy : y.isFinite = true) (hx' : x'.isFinite = true) (hy' : y'.isFinite = true) (hxle : x ≤ x')
    (hyle : y ≤ y') : blend c w x y ≤ blend c w x' y' := by
  have hxfin := (h.product hx).1
  have hyfin := (h.symm.product hy).1
  have hxfin' := (h.product hx').1
  have hyfin' := (h.symm.product hy').1
  exact add_le_add_number (h.mul_mono hx hx' hxle) (h.symm.mul_mono hy hy' hyle)
    (rank_add hxfin hyfin).1 (rank_add hxfin' hyfin').1

/-- The two parts of a magnitude are above the magnitude in front and below the one behind. -/
theorem Weights.parts_near (h : Weights c w) (hmag : mag < infMagnitude) :
    units (weighted c mag) + units (weighted w mag) ≤ units (mag + 1) ∧
      ∀ m, mag = m + 1 → units m ≤ units (weighted c mag) + units (weighted w mag) := by
  have hsum : units mag * units c.magnitude + units mag * units w.magnitude =
      units mag * one := by rw [← Nat.mul_add, h.sum]
  have hcfinite : weighted c mag < infMagnitude := (h.weighted_le hmag.le).trans_lt hmag
  have hwfinite : weighted w mag < infMagnitude := (h.symm.weighted_le hmag.le).trans_lt hmag
  constructor
  · have hlt : ∀ {u : Nat}, u < one → units mag * u < units (mag + 1) * one := by
      intro u hu
      have hnext : units mag < units (mag + 1) := by
        rw [units_succ]
        exact Nat.lt_add_of_pos_right (Nat.two_pow_pos _)
      exact Nat.mul_lt_mul_of_lt_of_le hnext hu.le one_pos
    have hc := (units_round_error one_pos (hlt h.lt_one) hcfinite).1
    have hw := (units_round_error one_pos (hlt h.symm.lt_one) hwfinite).1
    refine Nat.le_of_mul_le_mul_right ?_ one_pos
    rw [units_succ, Nat.add_mul, Nat.add_mul, ← hsum]
    rw [weighted, weighted]
    omega
  · rintro m rfl
    have hpos : 0 < units (m + 1) := by
      rw [units_succ]
      exact Nat.add_pos_right _ (Nat.two_pow_pos _)
    have hlt : ∀ {u : Nat}, u < one → units (m + 1) * u < units (m + 1) * one :=
      fun hu => Nat.mul_lt_mul_of_pos_left hu hpos
    have hc := (units_round_error one_pos (hlt h.lt_one) hcfinite).2
    have hw := (units_round_error one_pos (hlt h.symm.lt_one) hwfinite).2
    have hsucc : units (m + 1) * one = units m * one + spacing m * one := by
      rw [units_succ, Nat.add_mul]
    refine Nat.le_of_mul_le_mul_right ?_ one_pos
    rw [Nat.add_mul, weighted, weighted]
    omega

/-- Both are numbers, and the first one is at most so many places above the second. -/
def LeUpTo (k : Nat) (x y : Binary64) : Prop :=
  x.isNaN = false ∧ y.isNaN = false ∧ x.rank ≤ y.rank + k

/-- A number that is blended with itself is moved by at most one place. -/
theorem Weights.blend_self (h : Weights c w) (hx : x.isFinite = true) :
    LeUpTo 1 x (blend c w x x) ∧ LeUpTo 1 (blend c w x x) x := by
  have hlt : x.magnitude < infMagnitude := of_decide_eq_true hx
  obtain ⟨hcfin, hcneg, hcmag⟩ := h.product hx
  obtain ⟨hwfin, hwneg, hwmag⟩ := h.symm.product hx
  obtain ⟨hnan, hrank⟩ := rank_add hcfin hwfin
  set total := units (weighted c x.magnitude) + units (weighted w x.magnitude) with htotal
  obtain ⟨hhigh, hlow⟩ := h.parts_near hlt
  have habove : roundMagnitude total 1 ≤ x.magnitude + 1 := by
    calc roundMagnitude total 1 ≤ roundMagnitude (units (x.magnitude + 1)) 1 :=
          roundMagnitude_mono Nat.one_pos Nat.one_pos (Nat.mul_le_mul_right _ hhigh)
      _ = x.magnitude + 1 := roundMagnitude_units hlt
  have hbelow : x.magnitude ≤ roundMagnitude total 1 + 1 := by
    cases hmag : x.magnitude with
    | zero => exact Nat.zero_le _
    | succ m =>
        refine Nat.succ_le_succ ?_
        calc m = roundMagnitude (units m) 1 := (roundMagnitude_units (by omega)).symm
          _ ≤ roundMagnitude total 1 :=
            roundMagnitude_mono Nat.one_pos Nat.one_pos (Nat.mul_le_mul_right _ (hlow m hmag))
  have hnothing : total = 0 → roundMagnitude total 1 = 0 := by
    intro hzero
    have hround := roundMagnitude_units (Nat.zero_le infMagnitude)
    rw [units, if_pos (by decide)] at hround
    rw [hzero, hround]
  have hsum : (x * c).signedUnits + (x * w).signedUnits =
      if x.negative then -(total : Int) else total := by
    unfold signedUnits
    rw [hcneg, hwneg, hcmag, hwmag]
    split <;> omega
  have hxnan := (fields_of_finite hx).1
  suffices hnear : x.rank - 1 ≤ (blend c w x x).rank ∧ (blend c w x x).rank ≤ x.rank + 1 from
    ⟨⟨hxnan, hnan, by omega⟩, ⟨hnan, hxnan, hnear.2⟩⟩
  rw [blend, hrank, hsum, rank, sumRank]
  cases x.negative with
  | false =>
      rw [if_neg Bool.false_ne_true, if_neg Bool.false_ne_true, if_neg (by omega)]
      rw [Int.natAbs_natCast]
      omega
  | true =>
      rw [if_pos rfl, if_pos rfl, Int.natAbs_neg, Int.natAbs_natCast]
      split <;> omega

/-- A blend of ordered numbers is at most one place outside of any bounds that they have. -/
theorem Weights.blend_bounds (h : Weights c w) {low high : Binary64} (hlow : low ≤ x) (hxy : x ≤ y)
    (hhigh : y ≤ high) (hlowfin : low.isFinite = true) (hhighfin : high.isFinite = true) :
    LeUpTo 1 low (blend c w x y) ∧ LeUpTo 1 (blend c w x y) high := by
  have hx := finite_between hlow (le_trans_number hxy hhigh) hlowfin hhighfin
  have hy := finite_between (le_trans_number hlow hxy) hhigh hlowfin hhighfin
  obtain ⟨-, hbelow, hmoved⟩ := (h.blend_self hlowfin).1
  obtain ⟨habove, -, hmoved'⟩ := (h.blend_self hhighfin).2
  have hmono := h.blend_mono hlowfin hlowfin hx hy hlow (le_trans_number hlow hxy)
  have hmono' := h.blend_mono hx hy hhighfin hhighfin (le_trans_number hxy hhigh) hhigh
  refine ⟨⟨hlow.1, hmono.2.1, ?_⟩, ⟨hmono'.1, hhigh.2.1, ?_⟩⟩
  · have := hmono.2.2
    omega
  · have := hmono'.2.2
    omega

end Weighted

end Binary64
