import PowerForensics.Binary64.Monotone

/-! # Halves and differences

The sign of a difference is the order of what it is taken of, in the total order of all patterns.
The middle of two numbers is the sum of their halves: it keeps their order and never overflows,
also where one side has infinities. A count is halved exactly, so that it lies either at an
integer or in the middle between two.
-/

namespace Binary64

variable {x y u v : Binary64}

/-! ## Numbers next to infinities -/

/-- The largest finite number. -/
def greatest : Binary64 := ofMagnitude false (infMagnitude - 1)

theorem greatest_fields : greatest.isNaN = false ∧ greatest.rank = infMagnitude - 1 ∧
    greatest.isFinite = true ∧
    (greatest * 0.5 + greatest * 0.5 = greatest ∧ (greatest * 0.5).isFinite = true) ∧
    -greatest * 0.5 + -greatest * 0.5 = -greatest ∧ (-greatest * 0.5).isFinite = true := by
  decide +kernel

/-- A number below the positive infinity. -/
def Low (x : Binary64) : Prop := x ≤ greatest

/-- A number above the negative infinity. -/
def High (x : Binary64) : Prop := Low (-x)

theorem low_iff : Low x ↔ x.isNaN = false ∧ (x.isInfinite = true → x.negative = true) := by
  obtain ⟨hnan, hrank, -⟩ := greatest_fields
  constructor
  · rintro ⟨hx, -, hle⟩
    refine ⟨hx, fun hinf => ?_⟩
    have hmag : x.magnitude = infMagnitude := of_decide_eq_true hinf
    rw [hrank, rank] at hle
    split at hle
    · next hneg => exact hneg
    · omega
  · rintro ⟨hx, hneg⟩
    refine ⟨hx, hnan, ?_⟩
    have hle := magnitude_le hx
    rw [hrank, rank]
    have hinf : infMagnitude = 2047 * 2 ^ 52 := rfl
    split
    · omega
    · next hpos =>
      have hne : x.magnitude ≠ infMagnitude := fun h => hpos (hneg (decide_eq_true h))
      omega

theorem high_iff : High x ↔ x.isNaN = false ∧ (x.isInfinite = true → x.negative = false) := by
  rw [High, low_iff, isNaN_neg, isInfinite_neg, negative_neg]
  simp only [Bool.not_eq_true']

theorem low_of_finite (hx : x.isFinite = true) : Low x := by
  obtain ⟨hnan, hinf⟩ := fields_of_finite hx
  exact low_iff.mpr ⟨hnan, fun h => absurd (hinf.symm.trans h) Bool.false_ne_true⟩

theorem high_of_finite (hx : x.isFinite = true) : High x :=
  low_of_finite ((isFinite_neg x).trans hx)

theorem finite_of_low_of_high (hlow : Low x) (hhigh : High x) : x.isFinite = true := by
  rcases finite_or_infinite hlow.1 with hfin | hinf
  · exact hfin
  · have hneg := (low_iff.mp hlow).2 hinf
    have hpos := (high_iff.mp hhigh).2 hinf
    exact absurd (hneg.symm.trans hpos) (by decide)

/-! ## The sign of a difference -/

theorem magnitude_lt_of_units (hlt : units x.magnitude < units y.magnitude) :
    x.magnitude < y.magnitude := by
  by_contra hle
  have := units_mono (Nat.not_lt.mp hle)
  omega

theorem magnitude_eq_of_units (hx : x.isFinite = true) (hy : y.isFinite = true)
    (heq : units x.magnitude = units y.magnitude) : x.magnitude = y.magnitude := by
  have hxmag := roundMagnitude_units (le_of_lt (of_decide_eq_true hx))
  have hymag := roundMagnitude_units (le_of_lt (of_decide_eq_true hy))
  rw [← hxmag, ← hymag, heq]

theorem totalRank_le_of_signedUnits (hlt : x.signedUnits < y.signedUnits) :
    x.totalRank ≤ y.totalRank := by
  unfold signedUnits at hlt
  unfold totalRank
  split_ifs at hlt ⊢ with hx hy hy
  · have := magnitude_lt_of_units (x := y) (y := x) (by omega)
    omega
  · omega
  · omega
  · have := magnitude_lt_of_units (x := x) (y := y) (by omega)
    omega

/-- Of two numbers with a difference, the sign of the difference tells which is before the other;
the one before is not infinity, and the other not negative infinity. -/
theorem order_of_sub (hnan : (y - x).isNaN = false) :
    if (y - x).negative then y.totalRank ≤ x.totalRank ∧ Low y ∧ High x
    else x.totalRank ≤ y.totalRank ∧ Low x ∧ High y := by
  obtain ⟨hx, hy, hinf⟩ := (isNaN_sub_iff x y).mp hnan
  have hxle := magnitude_le hx
  have hyle := magnitude_le hy
  rw [low_iff, low_iff, high_iff, high_iff, hx, hy]
  change if (add y (-x)).negative then _ else _
  simp only [add, isNaN_neg, isInfinite_neg, negative_neg, hx, hy, Bool.or_self,
    Bool.false_eq_true, if_false]
  rcases finite_or_infinite hy with hyfin | hyinf
  · rcases finite_or_infinite hx with hxfin | hxinf
    · -- both finite: the exact difference is rounded, or it is zero and has a sign of its own
      rw [(fields_of_finite hxfin).2, (fields_of_finite hyfin).2, signedUnits_opposite]
      simp only [Bool.false_eq_true, if_false, false_implies, and_true]
      split
      next hzero =>
        have hmag : x.negative = y.negative → x.magnitude = y.magnitude := by
          intro hsign
          refine magnitude_eq_of_units hxfin hyfin ?_
          unfold signedUnits at hzero
          rw [hsign] at hzero
          split at hzero <;> omega
        rw [zero, negative_ofMagnitude _ (by decide), totalRank, totalRank]
        cases hxn : x.negative <;> cases hyn : y.negative <;>
          simp only [hxn, hyn, Bool.not_true, Bool.not_false, Bool.and_true, Bool.and_false,
            if_true, if_false, Bool.false_eq_true, true_implies] at hmag ⊢ <;> omega
      next hne =>
        rw [negative_ofUnits]
        simp only [decide_eq_true_eq]
        split
        next hlt => exact totalRank_le_of_signedUnits (by omega)
        next hlt => exact totalRank_le_of_signedUnits (by omega)
    · have hmag : x.magnitude = infMagnitude := of_decide_eq_true hxinf
      rw [(fields_of_finite hyfin).2, hxinf]
      simp only [Bool.false_eq_true, if_false, if_true, negative_neg, false_implies, true_implies,
        and_true, true_and]
      unfold totalRank
      cases x.negative <;> cases y.negative <;> simp <;> omega
  · have hmag : y.magnitude = infMagnitude := of_decide_eq_true hyinf
    rw [hyinf] at hinf ⊢
    have hsame : (x.isInfinite && y.negative != !x.negative) = false := by
      cases hxinf : x.isInfinite with
      | false => rfl
      | true =>
          have := hinf hxinf rfl
          cases hxn : x.negative <;> cases hyn : y.negative <;> simp_all
    simp only [hsame, if_true, true_implies, true_and]
    simp only [Bool.false_eq_true, if_false]
    unfold totalRank
    cases hyn : y.negative <;> cases hxn : x.negative <;> simp [hxn, hyn] at hinf ⊢ <;>
      first | omega | exact ⟨by omega, hinf⟩

theorem rank_infinity (neg : Bool) :
    (infinity neg).rank = if neg then -(infMagnitude : Int) else infMagnitude := by
  have hmag : infMagnitude < 2 ^ 63 := by decide
  rw [rank, infinity, negative_ofMagnitude _ hmag, magnitude_ofMagnitude _ hmag]

theorem infinity_of_infinite (hx : x.isInfinite = true) : x = infinity x.negative := by
  have hmag : x.magnitude = infMagnitude := of_decide_eq_true hx
  rw [infinity, ← hmag, ofMagnitude_eta]

/-- Nothing is below the negative infinity. -/
theorem negInfinity_le (hx : x.isNaN = false) : infinity true ≤ x := by
  have hle := magnitude_le hx
  refine ⟨isNaN_of_infinite (by decide), hx, ?_⟩
  rw [rank_infinity, if_pos rfl, rank]
  split <;> omega

theorem rank_sub_nonneg (hle : x ≤ y) (hx : Low x) (hy : High y) :
    (y - x).isNaN = false ∧ 0 ≤ (y - x).rank := by
  have hxinf := (low_iff.mp hx).2
  have hyinf := (high_iff.mp hy).2
  have hnan : (y - x).isNaN = false := by
    refine (isNaN_sub_iff x y).mpr ⟨hle.1, hle.2.1, fun h h' => ?_⟩
    rw [hxinf h, hyinf h']
    decide
  refine ⟨hnan, ?_⟩
  rcases finite_or_infinite hle.2.1 with hyfin | hinf
  · rcases finite_or_infinite hle.1 with hxfin | hinf
    · change 0 ≤ (y + -x).rank
      rw [(rank_add hyfin ((isFinite_neg x).trans hxfin)).2, signedUnits_opposite]
      have hsum := signedUnits_mono hle.2.2
      have hround : sumRank 0 ≤ sumRank (y.signedUnits + -x.signedUnits) :=
        sumRank_mono (by omega)
      exact hround
    · have hsub : y - x = -x := by
        change add y (-x) = -x
        simp only [add, hle.1, hle.2.1, (fields_of_finite hyfin).2, hinf, isNaN_neg,
          isInfinite_neg, Bool.or_self, Bool.false_eq_true, if_false, if_true]
      rw [hsub, rank, negative_neg, hxinf hinf]
      exact Int.natCast_nonneg _
  · have hsub : y - x = y := by
      change add y (-x) = y
      have hsame : ((-x).isInfinite && y.negative != (-x).negative) = false := by
        rw [isInfinite_neg, negative_neg, hyinf hinf]
        cases hxi : x.isInfinite with
        | false => rfl
        | true => rw [hxinf hxi]; rfl
      simp only [add, hle.1, hle.2.1, hinf, hsame, isNaN_neg, Bool.or_self, Bool.false_eq_true,
        if_false, if_true]
    rw [hsub, rank, hyinf hinf]
    exact Int.natCast_nonneg _

theorem rank_sub_nonpos (hle : y ≤ x) (hy : Low y) (hx : High x) :
    (y - x).isNaN = false ∧ (y - x).rank ≤ 0 := by
  obtain ⟨hnan, hrank⟩ := rank_sub_nonneg hle hy hx
  obtain ⟨hsame, hopposite⟩ := (sub_exchange x y).2
  rw [isNaN_neg] at hsame
  have hneg := hopposite hnan
  rw [rank_neg] at hneg
  exact ⟨hsame.symm.trans hnan, by omega⟩

/-! ## Sums -/

theorem add_of_infinite (hx : x.isInfinite = true) (hnan : (x + y).isNaN = false) : x + y = x := by
  change (add x y).isNaN = false at hnan
  change add x y = x
  have hxnan := isNaN_of_infinite hx
  cases hy : y.isNaN with
  | true => simp [add, hy, isNaN_nan] at hnan
  | false =>
      simp only [add, hxnan, hy, hx, Bool.or_self, Bool.false_eq_true, if_false, if_true] at hnan ⊢
      split at hnan
      · exact absurd hnan (by simp [isNaN_nan])
      · next h => rw [if_neg h]

theorem add_comm_number (x y : Binary64) : x + y = y + x := by
  change add x y = add y x
  unfold add
  rw [Bool.or_comm, Int.add_comm, Bool.and_comm x.negative]
  cases hx : x.isInfinite <;> cases hy : y.isInfinite <;>
    simp only [Bool.false_eq_true, if_false, if_true, Bool.true_and, Bool.false_and]
  have hxmag : x.magnitude = infMagnitude := of_decide_eq_true hx
  have hymag : y.magnitude = infMagnitude := of_decide_eq_true hy
  by_cases hsign : x.negative = y.negative
  · rw [ext_fields hsign (hxmag.trans hymag.symm)]
  · have hsign' : ¬y.negative = x.negative := fun h => hsign h.symm
    simp only [bne_iff_ne, ne_eq, hsign, hsign', not_false_eq_true, if_true]

theorem finite_of_add (h : (x + y).isFinite = true) : x.isFinite = true ∧ y.isFinite = true := by
  have hleft : ∀ {u v : Binary64}, (u + v).isFinite = true → u.isFinite = true := by
    intro u v huv
    obtain ⟨hnan, hinf⟩ := fields_of_finite huv
    cases hu : u.isNaN with
    | true =>
        rw [nan_add_left hu, isNaN_nan] at hnan
        cases hnan
    | false =>
        refine (finite_or_infinite hu).resolve_right fun huinf => ?_
        rw [add_of_infinite huinf hnan, huinf] at hinf
        cases hinf
  exact ⟨hleft h, hleft (add_comm_number x y ▸ h)⟩

theorem infinite_of_not_low (hx : x.isNaN = false) (hlow : ¬Low x) :
    x.isInfinite = true ∧ x.negative = false := by
  rw [low_iff, hx] at hlow
  simpa using hlow

theorem infinite_of_not_high (hx : x.isNaN = false) (hhigh : ¬High x) :
    x.isInfinite = true ∧ x.negative = true := by
  rw [high_iff, hx] at hhigh
  simpa using hhigh

theorem Low.mono (hy : Low y) (hle : x ≤ y) : Low x := le_trans_number hle hy

theorem High.mono (hx : High x) (hle : x ≤ y) : High y := by
  refine Low.mono hx ⟨(isNaN_neg y).trans hle.2.1, (isNaN_neg x).trans hle.1, ?_⟩
  rw [rank_neg, rank_neg]
  exact Int.neg_le_neg hle.2.2

/-- Sums keep the order, where both are numbers. -/
theorem add_le_add_number {x' y' : Binary64} (hx : x ≤ x') (hy : y ≤ y')
    (hnan : (x + y).isNaN = false) (hnan' : (x' + y').isNaN = false) : x + y ≤ x' + y' := by
  have hbottom : ∀ {z w : Binary64}, x + y = z + w → z.isNaN = false → ¬High z →
      x + y ≤ x' + y' := by
    intro z w heq hz hhigh
    obtain ⟨hinf, hneg⟩ := infinite_of_not_high hz hhigh
    rw [heq, add_of_infinite hinf (heq ▸ hnan), infinity_of_infinite hinf, hneg]
    exact negInfinity_le hnan'
  have htop : ∀ {z w : Binary64}, x' + y' = z + w → z.isNaN = false → ¬Low z →
      x + y ≤ x' + y' := by
    intro z w heq hz hlow
    obtain ⟨hinf, hneg⟩ := infinite_of_not_low hz hlow
    rw [heq, add_of_infinite hinf (heq ▸ hnan'), infinity_of_infinite hinf, hneg]
    exact le_infinity hnan
  by_cases hxhigh : High x
  · by_cases hyhigh : High y
    · by_cases hxlow : Low x'
      · by_cases hylow : Low y'
        · have hxfin := finite_of_low_of_high (hxlow.mono hx) hxhigh
          have hyfin := finite_of_low_of_high (hylow.mono hy) hyhigh
          have hxfin' := finite_of_low_of_high hxlow (hxhigh.mono hx)
          have hyfin' := finite_of_low_of_high hylow (hyhigh.mono hy)
          refine ⟨hnan, hnan', ?_⟩
          rw [(rank_add hxfin hyfin).2, (rank_add hxfin' hyfin').2]
          exact sumRank_mono (Int.add_le_add (signedUnits_mono hx.2.2) (signedUnits_mono hy.2.2))
        · exact htop (add_comm_number x' y') hy.2.1 hylow
      · exact htop rfl hx.2.1 hxlow
    · exact hbottom (add_comm_number x y) hy.1 hyhigh
  · exact hbottom rfl hx.1 hxhigh

theorem isNaN_add (hx : x.isNaN = false) (hy : y.isNaN = false)
    (hinf : x.isInfinite = true → y.isInfinite = true → x.negative = y.negative) :
    (x + y).isNaN = false := by
  have hsub : y - -x = x + y := by
    rw [add_comm_number]
    change y + - -x = y + x
    congr 1
    exact ext_fields (by simp) (by simp)
  rw [← hsub]
  refine (isNaN_sub_iff (-x) y).mpr ⟨(isNaN_neg x).trans hx, hy, fun h h' => ?_⟩
  rw [negative_neg, hinf ((isInfinite_neg x).symm.trans h) h']
  cases y.negative <;> decide

theorem isNaN_add_of_low (hx : Low x) (hy : Low y) : (x + y).isNaN = false :=
  isNaN_add hx.1 hy.1 fun h h' => ((low_iff.mp hx).2 h).trans ((low_iff.mp hy).2 h').symm

theorem isNaN_add_of_high (hx : High x) (hy : High y) : (x + y).isNaN = false :=
  isNaN_add (high_iff.mp hx).1 (high_iff.mp hy).1 fun h h' =>
    ((high_iff.mp hx).2 h).trans ((high_iff.mp hy).2 h').symm

/-! ## Differences and products that are not negative -/

theorem zero_finite : (0.0 : Binary64).isFinite = true ∧ (0.0 : Binary64).magnitude = 0 := by
  decide +kernel

theorem zero_le_iff_rank : (0.0 : Binary64) ≤ x ↔ x.isNaN = false ∧ 0 ≤ x.rank := by
  obtain ⟨hrank, hnan, -⟩ := patterns.2.1
  constructor
  · rintro ⟨-, hx, hle⟩
    rw [hrank] at hle
    exact ⟨hx, hle⟩
  · rintro ⟨hx, hle⟩
    refine ⟨hnan, hx, ?_⟩
    rwa [hrank]

theorem le_zero_iff_rank : x ≤ 0.0 ↔ x.isNaN = false ∧ x.rank ≤ 0 := by
  obtain ⟨hrank, hnan, -⟩ := patterns.2.1
  constructor
  · rintro ⟨hx, -, hle⟩
    rw [hrank] at hle
    exact ⟨hx, hle⟩
  · rintro ⟨hx, hle⟩
    refine ⟨hx, hnan, ?_⟩
    rwa [hrank]

theorem max_zero_of_nan (hx : x.isNaN = true) : max x 0.0 = 0.0 := by
  rw [max_eq, if_pos hx]

theorem zero_le_max (x : Binary64) : (0.0 : Binary64) ≤ max x 0.0 := by
  have hnan : (0.0 : Binary64).isNaN = false := patterns.2.1.2.1
  rw [max_eq, hnan]
  split
  next => exact le_of_number hnan
  next hx =>
    rw [if_neg Bool.false_ne_true]
    split
    next => exact le_of_number hnan
    next hlt => exact le_of_not_lt_number (Bool.eq_false_iff.mpr hx) hnan hlt

/-- A number less one that it does not exceed is not above zero. -/
theorem max_sub_of_le (hle : x ≤ v) : max (x - v) 0.0 ≤ 0.0 := by
  have hnan : (0.0 : Binary64).isNaN = false := patterns.2.1.2.1
  cases hsub : (x - v).isNaN with
  | true =>
      rw [max_zero_of_nan hsub]
      exact le_of_number hnan
  | false =>
      have hnonpos : (x - v).rank ≤ 0 := by
        have hsign := order_of_sub hsub
        split at hsign
        next hneg =>
          rw [rank, if_pos hneg]
          exact Int.neg_nonpos_of_nonneg (Int.natCast_nonneg _)
        next =>
          obtain ⟨-, hlow, hhigh⟩ := hsign
          exact (rank_sub_nonpos hle (hlow.mono hle) (hhigh.mono hle)).2
      rw [max_eq, hsub, hnan, if_neg Bool.false_ne_true, if_neg Bool.false_ne_true]
      split
      next => exact le_of_number hnan
      next => exact le_zero_iff_rank.mpr ⟨hsub, hnonpos⟩

/-- What is above a level grows with the number. -/
theorem max_sub_mono (hle : x ≤ y) (v : Binary64) : max (x - v) 0.0 ≤ max (y - v) 0.0 := by
  cases hx : (x - v).isNaN with
  | true =>
      rw [max_zero_of_nan hx]
      exact zero_le_max _
  | false =>
      have hvnan := ((isNaN_sub_iff v x).mp hx).1
      cases hy : (y - v).isNaN with
      | false =>
          have hneg : -v ≤ -v := le_of_number ((isNaN_neg v).trans hvnan)
          exact max_le_max_right_number (add_le_add_number hle hneg hx hy) 0.0
      | true =>
          -- both are the same infinity, so the other number does not exceed the level
          have hsame : v = y := by
            by_contra hne
            have hnumber := (isNaN_sub_iff v y).mpr ⟨hvnan, hle.2.1, fun hv hyinf hsign => ?_⟩
            · rw [hnumber] at hy
              cases hy
            · rw [infinity_of_infinite hv, infinity_of_infinite hyinf, hsign] at hne
              exact hne rfl
          rw [hsame] at hx ⊢
          exact le_trans_number (max_sub_of_le hle) (zero_le_max _)

theorem units_zero : units 0 = 0 := rfl

theorem roundMagnitude_of_zero (d : Nat) : roundMagnitude 0 d = 0 := by
  simp [roundMagnitude, roundHalfEven]

/-- The place of a product of two finite numbers that are not below zero. -/
theorem rank_mul_of_nonneg (hx : x.isFinite = true) (hy : y.isFinite = true) (hxpos : 0 ≤ x.rank)
    (hypos : 0 ≤ y.rank) : (x * y).isNaN = false ∧
      (x * y).rank = roundMagnitude (units x.magnitude * units y.magnitude) one := by
  obtain ⟨hxnan, hxinf⟩ := fields_of_finite hx
  obtain ⟨hynan, hyinf⟩ := fields_of_finite hy
  have hmul : x * y = ofUnits (x.negative != y.negative)
      (units x.magnitude * units y.magnitude) one := by
    change mul x y = _
    simp [mul, hxnan, hynan, hxinf, hyinf]
  rw [hmul]
  refine ⟨isNaN_ofUnits _ _ _, ?_⟩
  rw [rank, negative_ofUnits, magnitude_ofUnits]
  split
  next hsign =>
    -- one of them is the negative zero
    have hzero : units x.magnitude * units y.magnitude = 0 := by
      unfold rank at hxpos hypos
      split_ifs at hxpos hypos with hxneg hyneg hyneg
      · rw [hxneg, hyneg] at hsign
        cases hsign
      · rw [show x.magnitude = 0 by omega, units_zero, Nat.zero_mul]
      · rw [show y.magnitude = 0 by omega, units_zero, Nat.mul_zero]
      · simp_all
    rw [hzero, roundMagnitude_of_zero]
    rfl
  next => rfl

theorem rank_mul_zero (hx : x.isFinite = true) (hxpos : 0 ≤ x.rank) : (x * 0.0).rank = 0 := by
  have hzero : 0 ≤ (0.0 : Binary64).rank := patterns.2.1.1.ge
  rw [(rank_mul_of_nonneg hx zero_finite.1 hxpos hzero).2, zero_finite.2, units_zero,
    Nat.mul_zero, roundMagnitude_of_zero]
  rfl

theorem mul_le_mul_left_nonneg (hv : v.isFinite = true) (hvpos : 0 ≤ v.rank) (hxpos : 0 ≤ x.rank)
    (hle : x ≤ y) (hy : y.isFinite = true) : v * x ≤ v * y := by
  have hrank := hle.2.2
  have hzero : (0.0 : Binary64) ≤ x := zero_le_iff_rank.mpr ⟨hle.1, hxpos⟩
  have hx := finite_between hzero hle zero_finite.1 hy
  obtain ⟨hxnan, hxrank⟩ := rank_mul_of_nonneg hv hx hvpos hxpos
  obtain ⟨hynan, hyrank⟩ := rank_mul_of_nonneg hv hy hvpos (hxpos.trans hrank)
  have hmag : x.magnitude ≤ y.magnitude := by
    unfold rank at hxpos hrank
    split_ifs at hxpos hrank <;> omega
  refine ⟨hxnan, hynan, ?_⟩
  rw [hxrank, hyrank, Int.ofNat_le]
  exact roundMagnitude_mono one_pos one_pos
    (Nat.mul_le_mul_right _ (Nat.mul_le_mul_left _ (units_mono hmag)))

theorem finite_of_mul (h : (x * y).isFinite = true) : x.isFinite = true ∧ y.isFinite = true := by
  change (mul x y).isFinite = true at h
  have hspecial : nan.isFinite = false ∧ (infinity (x.negative != y.negative)).isFinite = false := by
    cases x.negative <;> cases y.negative <;> decide
  unfold mul at h
  dsimp only at h
  split at h
  next => rw [hspecial.1] at h; cases h
  next hnan =>
    split at h
    next => split at h <;> simp [hspecial] at h
    next hinf =>
      simp only [Bool.or_eq_true, not_or, Bool.not_eq_true] at hnan hinf
      exact ⟨(finite_or_infinite hnan.1).resolve_right (by simp [hinf.1]),
        (finite_or_infinite hnan.2).resolve_right (by simp [hinf.2])⟩

/-! ## Halves -/

theorem half_fields : Plus (0.5 : Binary64) ∧ (0.5 : Binary64).isFinite = true ∧
    (0.5 : Binary64).magnitude ≠ 0 ∧ 2 * units (0.5 : Binary64).magnitude = one ∧
    (50.0 / 100.0 : Binary64) = 0.5 ∧ (1.0 - 0.5 : Binary64) = 0.5 ∧
    ofUnits false (one / 2) 1 = 0.5 := by
  unfold Plus
  decide +kernel

/-- The magnitude of half a number. -/
def halfMagnitude (mag : Nat) : Nat :=
  if mag = infMagnitude then infMagnitude
  else roundMagnitude (units mag * units (0.5 : Binary64).magnitude) one

theorem half_eq (hx : x.isNaN = false) :
    x * 0.5 = ofMagnitude x.negative (halfMagnitude x.magnitude) := by
  obtain ⟨hplus, hfin, hpos, -⟩ := half_fields
  obtain ⟨hnan, hinf⟩ := fields_of_finite hfin
  have hsign : (x.negative != false) = x.negative := Bool.bne_false _
  change mul x 0.5 = _
  simp only [mul, hx, hnan, hinf, hplus.2, hsign, Bool.or_false, Bool.false_eq_true, if_false,
    halfMagnitude]
  cases hxinf : x.isInfinite with
  | true =>
      have hmag : x.magnitude = infMagnitude := of_decide_eq_true hxinf
      have hzero : infMagnitude ≠ 0 := by decide
      simp [hmag, hpos, hzero, infinity]
  | false =>
      have hmag : ¬x.magnitude = infMagnitude := of_decide_eq_false hxinf
      rw [if_neg hmag, if_neg Bool.false_ne_true, ofUnits]

theorem halfMagnitude_le (mag : Nat) : halfMagnitude mag ≤ infMagnitude := by
  unfold halfMagnitude
  split
  · exact le_rfl
  · exact roundMagnitude_le _ _

theorem halfMagnitude_mono {m n : Nat} (hle : m ≤ n) (hn : n ≤ infMagnitude) :
    halfMagnitude m ≤ halfMagnitude n := by
  by_cases htop : n = infMagnitude
  · rw [htop, halfMagnitude.eq_def infMagnitude, if_pos rfl]
    exact halfMagnitude_le m
  · rw [halfMagnitude, halfMagnitude, if_neg (by omega), if_neg htop]
    exact roundMagnitude_mono one_pos one_pos
      (Nat.mul_le_mul_right _ (Nat.mul_le_mul_right _ (units_mono hle)))

theorem half_fields_eq (hx : x.isNaN = false) :
    (x * 0.5).isNaN = false ∧ (x * 0.5).negative = x.negative ∧
      (x * 0.5).magnitude = halfMagnitude x.magnitude := by
  have hle := halfMagnitude_le x.magnitude
  have hlt : halfMagnitude x.magnitude < 2 ^ 63 := hle.trans_lt (by decide)
  have hmag := magnitude_ofMagnitude x.negative hlt
  rw [half_eq hx]
  refine ⟨?_, negative_ofMagnitude _ hlt, hmag⟩
  rw [isNaN, hmag]
  exact decide_eq_false (Nat.not_lt.mpr hle)

theorem halfMagnitude_zero : halfMagnitude 0 = 0 := by
  have hunits : units 0 = 0 := rfl
  rw [halfMagnitude, if_neg (by decide), hunits, Nat.zero_mul]
  simp [roundMagnitude, roundHalfEven]

/-- Halves keep the order. -/
theorem half_mono (hle : x ≤ y) : x * 0.5 ≤ y * 0.5 := by
  obtain ⟨hx, hxneg, hxmag⟩ := half_fields_eq hle.1
  obtain ⟨hy, hyneg, hymag⟩ := half_fields_eq hle.2.1
  refine ⟨hx, hy, ?_⟩
  have hrank := hle.2.2
  have hxle := magnitude_le hle.1
  have hyle := magnitude_le hle.2.1
  rw [rank, rank, hxneg, hyneg, hxmag, hymag]
  unfold rank at hrank
  split_ifs at hrank ⊢
  · have := halfMagnitude_mono (m := y.magnitude) (n := x.magnitude) (by omega) hxle
    omega
  · omega
  · have hzero : x.magnitude = 0 ∧ y.magnitude = 0 := by omega
    simp [hzero.1, hzero.2, halfMagnitude_zero]
  · have := halfMagnitude_mono (m := x.magnitude) (n := y.magnitude) (by omega) hyle
    omega

theorem neg_half (hx : x.isNaN = false) : -x * 0.5 = -(x * 0.5) := by
  obtain ⟨-, hneg, hmag⟩ := half_fields_eq hx
  obtain ⟨-, hneg', hmag'⟩ := half_fields_eq ((isNaN_neg x).trans hx)
  refine ext_fields ?_ ?_
  · rw [hneg', negative_neg, negative_neg, hneg]
  · rw [hmag', magnitude_neg, magnitude_neg, hmag]

theorem low_half (hx : Low x) : Low (x * 0.5) :=
  (low_of_finite greatest_fields.2.2.2.1.2).mono (half_mono hx)

theorem high_half (hx : High x) : High (x * 0.5) := by
  have hnan := (high_iff.mp hx).1
  rw [High, ← neg_half hnan]
  exact low_half hx

/-! ## Middles -/

/-- The sum of two halves. -/
def middle (x y : Binary64) : Binary64 := x * 0.5 + y * 0.5

/-- The middle of two numbers below infinity is not rounded up to it. -/
theorem low_middle (hx : Low x) (hy : Low y) : Low (middle x y) := by
  obtain ⟨-, -, -, ⟨hsum, hfin⟩, -⟩ := greatest_fields
  have hnan := isNaN_add_of_low (low_half hx) (low_half hy)
  have hgreatest := isNaN_add_of_low (low_of_finite hfin) (low_of_finite hfin)
  have hle := add_le_add_number (half_mono hx) (half_mono hy) hnan hgreatest
  rw [hsum] at hle
  exact hle

theorem high_iff_le : High x ↔ -greatest ≤ x := by
  obtain ⟨hnan, -⟩ := greatest_fields
  constructor
  · rintro ⟨hx, -, hle⟩
    rw [isNaN_neg] at hx
    rw [rank_neg] at hle
    refine ⟨(isNaN_neg _).trans hnan, hx, ?_⟩
    rw [rank_neg]
    omega
  · rintro ⟨-, hx, hle⟩
    rw [rank_neg] at hle
    refine ⟨(isNaN_neg x).trans hx, hnan, ?_⟩
    rw [rank_neg]
    omega

theorem high_middle (hx : High x) (hy : High y) : High (middle x y) := by
  obtain ⟨-, -, -, -, hsum, hfin⟩ := greatest_fields
  have hhalf : High (-greatest * 0.5) := high_of_finite hfin
  have hnan := isNaN_add_of_high (high_half hx) (high_half hy)
  have hle := add_le_add_number (half_mono (high_iff_le.mp hx)) (half_mono (high_iff_le.mp hy))
    (isNaN_add_of_high hhalf hhalf) hnan
  rw [hsum] at hle
  exact high_iff_le.mpr hle

theorem middle_mono {x' y' : Binary64} (hx : Low x) (hy : Low y) (hx' : High x') (hy' : High y')
    (hxx' : x ≤ x') (hyy' : y ≤ y') : middle x y ≤ middle x' y' :=
  add_le_add_number (half_mono hxx') (half_mono hyy')
    (isNaN_add_of_low (low_half hx) (low_half hy))
    (isNaN_add_of_high (high_half hx') (high_half hy'))

/-! ## Half a count -/

/-- Above the smallest exponents a number is halved by taking one from its exponent. -/
theorem units_halved {mag : Nat} (hmag : 2 * 2 ^ 52 ≤ mag) :
    units mag = 2 * units (mag - 2 ^ 52) := by
  rw [units, units, if_neg (by omega), if_neg (by omega)]
  have hexp : mag / 2 ^ 52 - 1 = (mag - 2 ^ 52) / 2 ^ 52 - 1 + 1 := by omega
  have hfrac : (mag - 2 ^ 52) % 2 ^ 52 = mag % 2 ^ 52 := by omega
  rw [hexp, hfrac, Nat.pow_succ]
  ring

theorem magnitude_large {mag k : Nat} (hunits : units mag = k * one) (hk : 0 < k) :
    2 * 2 ^ 52 ≤ mag := by
  by_contra hsmall
  have hle : units mag ≤ units (2 * 2 ^ 52) := units_mono (Nat.not_le.mp hsmall).le
  have hone : units (2 * 2 ^ 52) < one := by
    have hpow : units (2 * 2 ^ 52) = 2 ^ 53 := by decide
    rw [hpow]
    exact Nat.pow_lt_pow_right Nat.one_lt_two (by decide)
  have hmul : one ≤ k * one := Nat.le_mul_of_pos_left one hk
  omega

/-- A number that is not next to zero is halved exactly. -/
theorem halfMagnitude_large {mag : Nat} (hmag : mag < infMagnitude) (hlarge : 2 * 2 ^ 52 ≤ mag) :
    halfMagnitude mag = mag - 2 ^ 52 := by
  obtain ⟨-, -, -, hhalf, -⟩ := half_fields
  have hscale : units mag * units (0.5 : Binary64).magnitude = units (mag - 2 ^ 52) * one := by
    rw [units_halved hlarge, Nat.mul_right_comm, Nat.mul_comm (2 * _), ← Nat.mul_assoc, ← hhalf]
    ring
  have hround := roundMagnitude_mul_right (units (mag - 2 ^ 52)) 1 one one_pos
  rw [Nat.one_mul] at hround
  rw [halfMagnitude, if_neg hmag.ne, hscale, hround, roundMagnitude_units (by omega)]

/-- Half of an integer is exact. -/
theorem units_halfMagnitude {mag k : Nat} (hmag : mag < infMagnitude)
    (hunits : units mag = k * one) : 2 * units (halfMagnitude mag) = k * one := by
  rcases Nat.eq_zero_or_pos k with rfl | hpos
  · rw [halfMagnitude, if_neg hmag.ne, hunits, Nat.zero_mul, Nat.zero_mul]
    simp [roundMagnitude, roundHalfEven, units]
  · have hlarge := magnitude_large hunits hpos
    rw [halfMagnitude_large hmag hlarge, ← units_halved hlarge, hunits]

/-- A number that is not next to zero is the middle of itself. -/
theorem middle_self (hx : x.isFinite = true) (hlarge : 2 * 2 ^ 52 ≤ x.magnitude) :
    middle x x = x := by
  have hlt : x.magnitude < infMagnitude := of_decide_eq_true hx
  obtain ⟨-, hneg, hmag⟩ := half_fields_eq (fields_of_finite hx).1
  rw [halfMagnitude_large hlt hlarge] at hmag
  have hfinite : (x * 0.5).isFinite = true := by
    refine decide_eq_true ?_
    rw [hmag]
    omega
  have hpos : 0 < units x.magnitude := units_pos (by omega)
  have hsum : (x * 0.5).signedUnits + (x * 0.5).signedUnits = x.signedUnits := by
    have hunits := units_halved hlarge
    cases hx : x.negative with
    | false =>
        rw [signedUnits_pos (hneg.trans hx), signedUnits_pos hx, hmag]
        omega
    | true =>
        rw [signedUnits_neg (hneg.trans hx), signedUnits_neg hx, hmag]
        omega
  have hsign : (x.signedUnits < 0 : Bool) = x.negative := by
    cases hx : x.negative with
    | false =>
        rw [signedUnits_pos hx]
        exact decide_eq_false (by omega)
    | true =>
        rw [signedUnits_neg hx]
        exact decide_eq_true (by omega)
  have hne : x.signedUnits ≠ 0 := by
    intro hzero
    have := natAbs_signedUnits x
    rw [hzero] at this
    omega
  rw [middle, add_eq hfinite hfinite, hsum, if_neg hne, hsign, natAbs_signedUnits]
  exact ofUnits_of_units hlt.le Nat.one_pos (Nat.mul_one _).symm

/-- An odd integer has no more bits than a significand. -/
theorem odd_lt {mag j : Nat} (hunits : units mag = (2 * j + 1) * one) : j < 2 ^ 53 := by
  have hlarge := magnitude_large hunits (Nat.succ_pos _)
  rw [units, if_neg (by omega), one] at hunits
  generalize mag / 2 ^ 52 - 1 = e at hunits
  have hsig : 2 ^ 52 + mag % 2 ^ 52 < 2 ^ 53 := by omega
  by_cases hexp : e ≤ unitExponent
  · have hle : 2 ^ e ≤ 2 ^ unitExponent := Nat.pow_le_pow_right (by decide) hexp
    have hprod : (2 * j + 1) * 2 ^ unitExponent < 2 ^ 53 * 2 ^ unitExponent := by
      calc (2 * j + 1) * 2 ^ unitExponent = (2 ^ 52 + mag % 2 ^ 52) * 2 ^ e := hunits.symm
        _ ≤ (2 ^ 52 + mag % 2 ^ 52) * 2 ^ unitExponent := Nat.mul_le_mul_left _ hle
        _ < 2 ^ 53 * 2 ^ unitExponent := Nat.mul_lt_mul_of_pos_right hsig (Nat.two_pow_pos _)
    have := Nat.lt_of_mul_lt_mul_right hprod
    omega
  · -- an exponent above that of one makes the integer even
    obtain ⟨d, rfl⟩ : ∃ d, e = unitExponent + 1 + d := ⟨e - (unitExponent + 1), by omega⟩
    have heven : (2 ^ 52 + mag % 2 ^ 52) * 2 ^ d * 2 * 2 ^ unitExponent =
        (2 * j + 1) * 2 ^ unitExponent := by
      rw [← hunits, Nat.pow_add, Nat.pow_succ]
      ring
    have := Nat.mul_right_cancel (Nat.two_pow_pos _) heven
    omega

theorem mul_comm_number (x y : Binary64) : x * y = y * x := by
  change mul x y = mul y x
  have hsign : (x.negative != y.negative) = (y.negative != x.negative) := by
    cases x.negative <;> cases y.negative <;> rfl
  unfold mul
  rw [hsign, Bool.or_comm, Bool.or_comm x.isInfinite, Bool.or_comm (decide (x.magnitude = 0)),
    Nat.mul_comm]

theorem two_mul_half_one : 2 * (one / 2) = one :=
  Nat.mul_div_cancel' (dvd_pow_self 2 (by decide))

section Parts

variable {r : Binary64} (hfin : r.isFinite = true) (hneg : r.negative = false)

include hfin hneg

theorem floor_eq : r.floor = ofUnits false (units r.magnitude / one * one) 1 := by
  rw [floor, if_pos hfin, hneg, if_neg Bool.false_ne_true, unitsBelow]

theorem ceil_eq : r.ceil = ofUnits false ((units r.magnitude + one - 1) / one * one) 1 := by
  rw [ceil, if_pos hfin, hneg, if_neg Bool.false_ne_true, unitsAbove]

/-- An integer is not rounded. -/
theorem floor_eq_ceil {j : Nat} (hint : units r.magnitude = j * one) : r.floor = r.ceil := by
  have habove : (j * one + one - 1) / one = j := by
    have := one_pos
    have hsum : j * one + one - 1 = one - 1 + one * j := by
      rw [Nat.mul_comm j]
      omega
    rw [hsum, Nat.add_mul_div_left _ _ one_pos, Nat.div_eq_of_lt (by omega), Nat.zero_add]
  rw [floor_eq hfin hneg, ceil_eq hfin hneg, hint, habove, Nat.mul_div_cancel _ one_pos]

/-- What lies in the middle between two integers is one half above the lower one. -/
theorem sub_floor {j : Nat} (hj : j < 2 ^ 53) (hmid : units r.magnitude = one / 2 + one * j) :
    r - ofNat (r.floor.toUnsigned 64) = 0.5 := by
  have hhalf := two_mul_half_one
  have hpos : 0 < one / 2 := by
    have := one_pos
    omega
  have hquot : units r.magnitude / one = j := by
    have := one_pos
    rw [hmid, Nat.add_mul_div_left _ _ one_pos, Nat.div_eq_of_lt (by omega), Nat.zero_add]
  have hexact : ∀ neg, units (ofUnits neg (j * one) 1).magnitude = j * one := units_ofUnits hj
  have hint : r.floor = ofNat j := by rw [floor_eq hfin hneg, hquot, ofNat]
  have hjfin := isFinite_ofNat (hj.trans (by decide) : j < 2 ^ 64)
  have hlo : (ofNat j).toUnsigned 64 = j := by
    rw [toUnsigned, (fields_of_finite hjfin).1, (fields_of_finite hjfin).2, ofNat,
      negative_ofUnits, hexact, Nat.mul_div_cancel _ one_pos, if_neg (by decide),
      if_neg (by decide), Nat.min_eq_left (by omega)]
  have hexactUnits : (ofNat j).signedUnits = j * one := by
    rw [ofNat, signedUnits_pos (negative_ofUnits _ _ _), hexact, Nat.cast_mul]
  have hsum : r.signedUnits + (-ofNat j).signedUnits = (one / 2 : Nat) := by
    rw [signedUnits_opposite, hexactUnits, signedUnits_pos hneg, hmid, Nat.mul_comm one j]
    push_cast
    ring
  have hne : ¬((one / 2 : Nat) : Int) = 0 := Int.natCast_ne_zero.mpr hpos.ne'
  have hsign : decide (((one / 2 : Nat) : Int) < 0) = false :=
    decide_eq_false (Int.not_lt.mpr (Int.natCast_nonneg _))
  have hsub : r - ofNat j = r + -ofNat j := rfl
  rw [hint, hlo, hsub, add_eq hfin ((isFinite_neg _).trans hjfin), hsum, if_neg hne, hsign,
    Int.natAbs_natCast]
  exact half_fields.2.2.2.2.2.2

end Parts

/-- Half of a count is an integer, or it lies one half above one. -/
theorem half_count (k : Nat) :
    ((0.5 * ofNat k).floor.toUnsigned 64 = (0.5 * ofNat k).ceil.toUnsigned 64) ∨
      0.5 * ofNat k - ofNat ((0.5 * ofNat k).floor.toUnsigned 64) = 0.5 := by
  obtain ⟨hnan, hneg, hmag⟩ := half_fields_eq (x := ofNat k) (isNaN_ofUnits _ _ _)
  rw [mul_comm_number]
  generalize hr : ofNat k * 0.5 = r at hnan hneg hmag ⊢
  rw [ofNat, negative_ofUnits] at hneg
  rw [ofNat, magnitude_ofUnits] at hmag
  by_cases hfin : r.isFinite = true
  · have hlt : roundMagnitude (k * one) 1 < infMagnitude := by
      by_contra hle
      have htop : roundMagnitude (k * one) 1 = infMagnitude :=
        le_antisymm (roundMagnitude_le _ _) (Nat.not_lt.mp hle)
      rw [htop, halfMagnitude, if_pos rfl] at hmag
      exact absurd hmag (of_decide_eq_true hfin).ne
    obtain ⟨n, hn⟩ := one_dvd_units hlt
    rw [Nat.mul_comm one n] at hn
    have hunits := units_halfMagnitude hlt hn
    rw [← hmag] at hunits
    rcases Nat.even_or_odd' n with ⟨j, rfl | rfl⟩
    · left
      have hint : units r.magnitude = j * one := by
        rw [Nat.mul_assoc] at hunits
        omega
      rw [floor_eq_ceil hfin hneg hint]
    · right
      refine sub_floor hfin hneg (odd_lt hn) ?_
      have hhalf := two_mul_half_one
      rw [Nat.add_mul, Nat.mul_assoc, Nat.one_mul, Nat.mul_comm j] at hunits
      omega
  · left
    rw [floor, ceil, if_neg hfin, if_neg hfin]

end Binary64
