import PowerForensics.Binary64.Alike
import PowerForensics.Binary64.Bounds

/-! # Monotone arithmetic

Sums, products and quotients are rounded by a monotone function, so they keep the order of what
they are taken of. So do the choice of the smaller of two numbers, a number moved between two
bounds, and rounding to integers.
-/

namespace Binary64

section Order

variable {x y z : Binary64}

theorem le_of_number (hx : x.isNaN = false) : x ≤ x := ⟨hx, hx, le_refl _⟩

theorem le_trans_number (hxy : x ≤ y) (hyz : y ≤ z) : x ≤ z :=
  ⟨hxy.1, hyz.2.1, hxy.2.2.trans hyz.2.2⟩

theorem lt_of_lt_of_le_number (hxy : x < y) (hyz : y ≤ z) : x < z :=
  ⟨hxy.1, hyz.2.1, hxy.2.2.trans_le hyz.2.2⟩

theorem lt_of_le_of_lt_number (hxy : x ≤ y) (hyz : y < z) : x < z :=
  ⟨hxy.1, hyz.2.1, hxy.2.2.trans_lt hyz.2.2⟩

theorem le_of_not_lt_number (hx : x.isNaN = false) (hy : y.isNaN = false) (hlt : ¬x < y) :
    y ≤ x := ⟨hy, hx, not_lt.mp fun h => hlt ⟨hx, hy, h⟩⟩

/-- A number with a positive sign. -/
def Plus (x : Binary64) : Prop := x.isNaN = false ∧ x.negative = false

theorem Plus.rank_eq (hx : Plus x) : x.rank = x.magnitude := by
  rw [rank, hx.2, if_neg Bool.false_ne_true]

theorem Plus.le_iff (hx : Plus x) (hy : Plus y) : x ≤ y ↔ x.magnitude ≤ y.magnitude := by
  rw [← Int.ofNat_le, ← hx.rank_eq, ← hy.rank_eq]
  exact ⟨fun h => h.2.2, fun h => ⟨hx.1, hy.1, h⟩⟩

theorem plus_of_lt (hlt : (0.0 : Binary64) < x) : Plus x := by
  refine ⟨hlt.2.1, ?_⟩
  have hrank := hlt.2.2
  rw [patterns.2.1.1, rank] at hrank
  split at hrank
  · omega
  · next hneg => exact Bool.eq_false_iff.mpr hneg

theorem magnitude_ne_zero_of_lt (hlt : (0.0 : Binary64) < x) : x.magnitude ≠ 0 := by
  have hrank := hlt.2.2
  rw [patterns.2.1.1, (plus_of_lt hlt).rank_eq] at hrank
  omega

theorem plus_of_lt_of_le (hlt : (0.0 : Binary64) < x) (hle : x ≤ y) : Plus y :=
  plus_of_lt (lt_of_lt_of_le_number hlt hle)

theorem plus_ofUnits (n d : Nat) : Plus (ofUnits false n d) :=
  ⟨isNaN_ofUnits _ _ _, negative_ofUnits _ _ _⟩

theorem plus_infinity : Plus (infinity false) := by
  have hmag : (infinity false).magnitude = infMagnitude := magnitude_ofMagnitude _ (by decide)
  exact ⟨by rw [isNaN, hmag]; decide, negative_ofMagnitude _ (by decide)⟩

/-- Nothing is above infinity. -/
theorem le_infinity (hx : x.isNaN = false) : x ≤ infinity false := by
  have hmag : (infinity false).magnitude = infMagnitude := magnitude_ofMagnitude _ (by decide)
  refine ⟨hx, plus_infinity.1, ?_⟩
  rw [plus_infinity.rank_eq, hmag, rank]
  have := magnitude_le hx
  split <;> omega

theorem finite_of_le (hx : Plus x) (hle : x ≤ y) (hy : y.isFinite = true) : x.isFinite = true := by
  have hpos : Plus y ∨ x.magnitude = 0 := by
    cases hneg : y.negative with
    | false => exact Or.inl ⟨hle.2.1, hneg⟩
    | true =>
        right
        have hrank := hle.2.2
        rw [hx.rank_eq, rank, if_pos hneg] at hrank
        omega
  have hmag : y.magnitude < infMagnitude := of_decide_eq_true hy
  refine decide_eq_true ?_
  obtain hy | hzero := hpos
  · exact ((hx.le_iff hy).mp hle).trans_lt hmag
  · rw [hzero]
    decide

/-- A number between two finite numbers. -/
theorem finite_between (hlow : x ≤ y) (hhigh : y ≤ z) (hx : x.isFinite = true)
    (hz : z.isFinite = true) : y.isFinite = true := by
  have hxmag : x.magnitude < infMagnitude := of_decide_eq_true hx
  have hzmag : z.magnitude < infMagnitude := of_decide_eq_true hz
  have hxy := hlow.2.2
  have hyz := hhigh.2.2
  refine decide_eq_true ?_
  unfold rank at hxy hyz
  split_ifs at hxy hyz <;> omega

theorem finite_or_infinite (hx : x.isNaN = false) :
    x.isFinite = true ∨ x.isInfinite = true := by
  have hle := magnitude_le hx
  obtain hlt | heq := hle.lt_or_eq
  · exact Or.inl (decide_eq_true hlt)
  · exact Or.inr (decide_eq_true heq)

end Order

/-! ## Sums -/

section Sum

variable {x y z : Binary64}

theorem signedUnits_mono (hle : x.rank ≤ y.rank) : x.signedUnits ≤ y.signedUnits := by
  unfold rank at hle
  unfold signedUnits
  split_ifs at hle ⊢ with hx hy hy
  · have := units_mono (a := y.magnitude) (b := x.magnitude) (by omega)
    omega
  · omega
  · have hzero : x.magnitude = 0 ∧ y.magnitude = 0 := by omega
    simp [hzero.1, hzero.2, units]
  · have := units_mono (a := x.magnitude) (b := y.magnitude) (by omega)
    omega

/-- The place of what an exact sum is rounded to. -/
def sumRank (s : Int) : Int :=
  if s < 0 then -(roundMagnitude s.natAbs 1 : Int) else roundMagnitude s.natAbs 1

theorem sumRank_mono {s s' : Int} (hle : s ≤ s') : sumRank s ≤ sumRank s' := by
  have hmono : ∀ m n : Nat, m ≤ n → roundMagnitude m 1 ≤ roundMagnitude n 1 :=
    fun m n h => roundMagnitude_mono Nat.one_pos Nat.one_pos (by omega)
  unfold sumRank
  split_ifs with hs hs' hs'
  · have := hmono s'.natAbs s.natAbs (by omega)
    omega
  · omega
  · omega
  · have := hmono s.natAbs s'.natAbs (by omega)
    omega

theorem rank_add (hx : x.isFinite = true) (hy : y.isFinite = true) :
    (x + y).isNaN = false ∧ (x + y).rank = sumRank (x.signedUnits + y.signedUnits) := by
  rw [add_eq hx hy]
  split
  next hzero =>
    rw [hzero]
    exact ⟨not_nan_of_zero (magnitude_zero _), rank_of_zero (magnitude_zero _)⟩
  next =>
    refine ⟨isNaN_ofUnits _ _ _, ?_⟩
    rw [rank, negative_ofUnits, magnitude_ofUnits, sumRank]
    simp only [decide_eq_true_eq]

theorem add_le_add_left_number (hz : z.isFinite = true) (hx : x.isFinite = true)
    (hy : y.isFinite = true) (hle : x ≤ y) : z + x ≤ z + y := by
  obtain ⟨hxnan, hxrank⟩ := rank_add hz hx
  obtain ⟨hynan, hyrank⟩ := rank_add hz hy
  refine ⟨hxnan, hynan, ?_⟩
  rw [hxrank, hyrank]
  exact sumRank_mono (Int.add_le_add_left (signedUnits_mono hle.2.2) _)

theorem isFinite_neg (x : Binary64) : (-x).isFinite = x.isFinite := by
  rw [isFinite, isFinite, magnitude_neg]

theorem sub_le_sub_left_number (hz : z.isFinite = true) (hx : x.isFinite = true)
    (hy : y.isFinite = true) (hle : x ≤ y) : z - y ≤ z - x := by
  refine add_le_add_left_number hz ((isFinite_neg y).trans hy) ((isFinite_neg x).trans hx) ?_
  refine ⟨(isNaN_neg y).trans hle.2.1, (isNaN_neg x).trans hle.1, ?_⟩
  change (-y).rank ≤ (-x).rank
  rw [rank_neg, rank_neg]
  exact Int.neg_le_neg hle.2.2

end Sum

/-! ## Products and quotients -/

section Product

variable {x y z : Binary64}

theorem units_pos (hzero : x.magnitude ≠ 0) : 0 < units x.magnitude :=
  Nat.pos_of_ne_zero fun h => hzero (units_eq_zero h)

/-- A product with a number above zero. -/
theorem mul_of_plus (hz : Plus z) (hx : Plus x) (hfinite : x.isFinite = true)
    (hpos : x.magnitude ≠ 0) : z * x = if z.isInfinite then infinity false
      else ofUnits false (units z.magnitude * units x.magnitude) one := by
  obtain ⟨hxnan, hxinf⟩ := fields_of_finite hfinite
  change mul z x = _
  simp only [mul, hz.1, hz.2, hx.2, hxnan, hxinf, hpos, Bool.or_false, Bool.bne_false]
  cases hzinf : z.isInfinite with
  | false => simp
  | true =>
      have hmag : z.magnitude = infMagnitude := of_decide_eq_true hzinf
      simp [hmag, infMagnitude]

theorem mul_le_mul_left_number (hz : Plus z) (hpos : (0.0 : Binary64) < x)
    (hfinite : y.isFinite = true) (hle : x ≤ y) : Plus (z * x) ∧ z * x ≤ z * y := by
  have hx := plus_of_lt hpos
  have hy := plus_of_lt_of_le hpos hle
  have hmag := (hx.le_iff hy).mp hle
  have hzero := magnitude_ne_zero_of_lt hpos
  rw [mul_of_plus hz hx (finite_of_le hx hle hfinite) hzero,
    mul_of_plus hz hy hfinite (by omega)]
  split
  · exact ⟨plus_infinity, le_of_number plus_infinity.1⟩
  · refine ⟨plus_ofUnits _ _, ((plus_ofUnits _ _).le_iff (plus_ofUnits _ _)).mpr ?_⟩
    rw [magnitude_ofUnits, magnitude_ofUnits]
    exact roundMagnitude_mono one_pos one_pos
      (Nat.mul_le_mul_right _ (Nat.mul_le_mul_left _ (units_mono hmag)))

/-- A product with a number of at least one is not below the other factor. -/
theorem le_mul_of_one_le (hz : Plus z) (hone : one ≤ units z.magnitude) (hx : Plus x)
    (hpos : x.magnitude ≠ 0) : x ≤ z * x := by
  cases hxinf : x.isInfinite with
  | true =>
      have hzpos : z.magnitude ≠ 0 := by
        intro hzero
        rw [hzero, units, if_pos (by decide)] at hone
        exact absurd one_pos (Nat.not_lt.mpr hone)
      have hprod : z * x = infinity false := by
        change mul z x = _
        simp [mul, hz.1, hz.2, hx.1, hx.2, hxinf, hzpos, hpos]
      rw [hprod]
      exact le_infinity hx.1
  | false =>
      have hxfin := (finite_or_infinite hx.1).resolve_right (by simp [hxinf])
      rw [mul_of_plus hz hx hxfin hpos]
      split
      · exact le_infinity hx.1
      · refine (hx.le_iff (plus_ofUnits _ _)).mpr ?_
        rw [magnitude_ofUnits]
        calc x.magnitude = roundMagnitude (units x.magnitude) 1 :=
              (roundMagnitude_units (magnitude_le hx.1)).symm
          _ ≤ _ := roundMagnitude_mono Nat.one_pos one_pos
              (by rw [Nat.mul_one, Nat.mul_comm]; exact Nat.mul_le_mul_right _ hone)

/-- A quotient by a number above zero. -/
theorem div_of_plus (hx : Plus x) (hz : Plus z) (hfinite : z.isFinite = true)
    (hpos : z.magnitude ≠ 0) : x / z = if x.isInfinite then infinity false
      else ofUnits false (units x.magnitude * one) (units z.magnitude) := by
  obtain ⟨hznan, hzinf⟩ := fields_of_finite hfinite
  change div x z = _
  simp only [div, hx.1, hx.2, hz.2, hznan, hzinf, hpos, Bool.or_false, Bool.bne_false,
    Bool.false_eq_true, if_false]

theorem div_le_div_number {d d' : Binary64} (hx : Plus x) (hy : Plus y) (hle : x ≤ y)
    (hpos : (0.0 : Binary64) < d') (hfinite : d.isFinite = true) (hd : d' ≤ d) :
    Plus (x / d) ∧ x / d ≤ y / d' := by
  have hd'plus := plus_of_lt hpos
  have hdplus := plus_of_lt_of_le hpos hd
  have hmag := (hx.le_iff hy).mp hle
  have hdmag := (hd'plus.le_iff hdplus).mp hd
  have hzero := magnitude_ne_zero_of_lt hpos
  rw [div_of_plus hx hdplus hfinite (by omega),
    div_of_plus hy hd'plus (finite_of_le hd'plus hd hfinite) hzero]
  cases hyinf : y.isInfinite with
  | true =>
      rw [if_pos rfl]
      split
      · exact ⟨plus_infinity, le_of_number plus_infinity.1⟩
      · exact ⟨plus_ofUnits _ _, le_infinity (isNaN_ofUnits _ _ _)⟩
  | false =>
      have hyfin : y.isFinite = true := (finite_or_infinite hy.1).resolve_right (by simp [hyinf])
      have hxfin := finite_of_le hx hle hyfin
      rw [(fields_of_finite hxfin).2, if_neg Bool.false_ne_true, if_neg Bool.false_ne_true]
      refine ⟨plus_ofUnits _ _, ((plus_ofUnits _ _).le_iff (plus_ofUnits _ _)).mpr ?_⟩
      rw [magnitude_ofUnits, magnitude_ofUnits]
      refine roundMagnitude_mono (units_pos (by omega)) (units_pos hzero) ?_
      calc units x.magnitude * one * units d'.magnitude
          ≤ units y.magnitude * one * units d.magnitude :=
            Nat.mul_le_mul (Nat.mul_le_mul_right _ (units_mono hmag)) (units_mono hdmag)

theorem one_fields : Plus (1.0 : Binary64) ∧ (1.0 : Binary64).magnitude = 1023 * 2 ^ 52 := by
  unfold Plus
  decide +kernel

/-- A number and one that is not below it have a quotient between zero and one. -/
theorem div_le_one_number (hx : Plus x) (hfinite : x.isFinite = true) (hle : x ≤ y)
    (hy : Plus y) (hpos : y.magnitude ≠ 0) :
    (0.0 : Binary64) ≤ x / y ∧ x / y ≤ (1.0 : Binary64) := by
  obtain ⟨hone, hmag⟩ := one_fields
  have hzero : ∀ {z : Binary64}, Plus z → (0.0 : Binary64) ≤ z := by
    intro z hz
    refine ⟨patterns.2.1.2.1, hz.1, ?_⟩
    rw [patterns.2.1.1, hz.rank_eq]
    exact Int.natCast_nonneg _
  cases hyinf : y.isInfinite with
  | true =>
      have hdiv : x / y = zero false := by
        obtain ⟨hnan, hinf⟩ := fields_of_finite hfinite
        change div x y = _
        simp only [div, hx.1, hx.2, hy.1, hy.2, hinf, hyinf, Bool.or_false, Bool.bne_false,
          Bool.false_eq_true, if_false, if_true]
      have hplus : Plus (zero false) := by
        unfold Plus
        decide +kernel
      rw [hdiv]
      refine ⟨hzero hplus, (hplus.le_iff hone).mpr ?_⟩
      rw [magnitude_zero]
      exact Nat.zero_le _
  | false =>
      have hyfinite : y.isFinite = true := (finite_or_infinite hy.1).resolve_right (by simp [hyinf])
      rw [div_of_plus hx hy hyfinite hpos, (fields_of_finite hfinite).2, if_neg Bool.false_ne_true]
      refine ⟨hzero (plus_ofUnits _ _), ((plus_ofUnits _ _).le_iff hone).mpr ?_⟩
      have hunit := roundMagnitude_two_pow (Nat.zero_le 1000)
      rw [magnitude_ofUnits, hmag, ← Nat.zero_add 1023, ← hunit]
      refine roundMagnitude_mono (units_pos hpos) Nat.one_pos ?_
      rw [Nat.mul_one, Nat.pow_zero, Nat.one_mul, Nat.mul_comm]
      exact Nat.mul_le_mul_left _ (units_mono ((hx.le_iff hy).mp hle))

end Product

/-! ## Choices, bounds and integers -/

section Choice

variable {x y z : Binary64}

theorem ofNat_mono {m n : Nat} (hle : m ≤ n) : ofNat m ≤ ofNat n := by
  refine ((plus_ofUnits _ _).le_iff (plus_ofUnits _ _)).mpr ?_
  rw [magnitude_ofUnits, magnitude_ofUnits]
  exact roundMagnitude_mono Nat.one_pos Nat.one_pos
    (Nat.mul_le_mul_right _ (Nat.mul_le_mul_right _ hle))

theorem min_eq (x y : Binary64) :
    min x y = if x.isNaN then y else if y.isNaN then x else if y < x then y else x := rfl

theorem max_eq (x y : Binary64) :
    max x y = if x.isNaN then y else if y.isNaN then x else if x < y then y else x := rfl

theorem min_le_min_right_number (hle : x ≤ y) (z : Binary64) : min x z ≤ min y z := by
  rw [min_eq, min_eq, hle.1, hle.2.1, if_neg Bool.false_ne_true, if_neg Bool.false_ne_true]
  cases hz : z.isNaN with
  | true => exact hle
  | false =>
      rw [if_neg Bool.false_ne_true, if_neg Bool.false_ne_true]
      split
      next hzx =>
        split
        · exact le_of_number hz
        · next hzy => exact absurd (lt_of_lt_of_le_number hzx hle) hzy
      next hzx =>
        split
        · exact le_of_not_lt_number hz hle.1 hzx
        · exact hle

theorem max_le_max_right_number (hle : x ≤ y) (z : Binary64) : max x z ≤ max y z := by
  rw [max_eq, max_eq, hle.1, hle.2.1, if_neg Bool.false_ne_true, if_neg Bool.false_ne_true]
  cases hz : z.isNaN with
  | true => exact hle
  | false =>
      rw [if_neg Bool.false_ne_true, if_neg Bool.false_ne_true]
      split
      next hxz =>
        split
        · exact le_of_number hz
        · next hyz => exact le_of_not_lt_number hle.2.1 hz hyz
      next hxz =>
        split
        · next hyz => exact absurd (lt_of_le_of_lt_number hle hyz) hxz
        · exact hle

theorem min_le_min_left_number (hle : x ≤ y) (z : Binary64) :
    min z x ≤ min z y := by
  rw [min_eq, min_eq]
  cases hznan : z.isNaN with
  | true => exact hle
  | false =>
      rw [hle.1, hle.2.1, if_neg Bool.false_ne_true, if_neg Bool.false_ne_true]
      simp only [Bool.false_eq_true, if_false]
      split
      next hxz =>
        split
        · exact hle
        · next hyz => exact ⟨hle.1, hznan, hxz.2.2.le⟩
      next hxz =>
        split
        · next hyz => exact absurd (lt_of_le_of_lt_number hle hyz) hxz
        · exact le_of_number hznan

theorem clamp_mono {lo hi : Binary64} (hlo : lo.isNaN = false) (hhi : hi.isNaN = false)
    (hle : x ≤ y) : x.clamp lo hi ≤ y.clamp lo hi := by
  have hlow : (if x < lo then lo else x) ≤ if y < lo then lo else y := by
    split
    next hxlo =>
      split
      · exact le_of_number hlo
      · next hylo => exact le_of_not_lt_number hle.2.1 hlo hylo
    next hxlo =>
      split
      · next hylo => exact absurd (lt_of_le_of_lt_number hle hylo) hxlo
      · exact hle
  change (if hi < (if x < lo then lo else x) then hi else if x < lo then lo else x) ≤
    if hi < (if y < lo then lo else y) then hi else if y < lo then lo else y
  revert hlow
  generalize (if x < lo then lo else x) = u
  generalize (if y < lo then lo else y) = v
  intro hle
  split
  next hu =>
    split
    · exact le_of_number hhi
    · next hv => exact absurd (lt_of_lt_of_le_number hu hle) hv
  next hu =>
    split
    · exact le_of_not_lt_number hhi hle.1 hu
    · exact hle

/-- A number that is moved between two bounds lies between them. -/
theorem clamp_bounds {lo hi : Binary64} (hx : x.isNaN = false) (hle : lo ≤ hi) :
    lo ≤ x.clamp lo hi ∧ x.clamp lo hi ≤ hi := by
  have hlow : lo ≤ if x < lo then lo else x := by
    split
    · exact le_of_number hle.1
    · next hlo => exact le_of_not_lt_number hx hle.1 hlo
  have hclamp : x.clamp lo hi = if hi < (if x < lo then lo else x) then hi
    else if x < lo then lo else x := rfl
  rw [hclamp]
  generalize (if x < lo then lo else x) = u at hlow
  split
  · exact ⟨hle, le_of_number hle.2.1⟩
  · next hhi => exact ⟨hlow, le_of_not_lt_number hle.2.1 hlow.2.1 hhi⟩

theorem round_mono (hx : Plus x) (hle : x ≤ y) (hy : Plus y) :
    Plus x.round ∧ x.round ≤ y.round := by
  have hfinite : ∀ {u : Binary64}, Plus u → u.isFinite = true →
      u.round = ofUnits false ((units u.magnitude + one / 2) / one * one) 1 := by
    intro u hu hufin
    rw [round, if_pos hufin, hu.2]
  have hinfinite : ∀ {u : Binary64}, u.isFinite ≠ true → u.round = u :=
    fun hufin => by rw [round, if_neg hufin]
  by_cases hyfin : y.isFinite = true
  · rw [hfinite hx (finite_of_le hx hle hyfin), hfinite hy hyfin]
    refine ⟨plus_ofUnits _ _, ((plus_ofUnits _ _).le_iff (plus_ofUnits _ _)).mpr ?_⟩
    rw [magnitude_ofUnits, magnitude_ofUnits]
    have hunits := units_mono ((hx.le_iff hy).mp hle)
    exact roundMagnitude_mono Nat.one_pos Nat.one_pos (Nat.mul_le_mul_right _
      (Nat.mul_le_mul_right _ (Nat.div_le_div_right (Nat.add_le_add_right hunits _))))
  · rw [hinfinite hyfin]
    have htop : infMagnitude ≤ y.magnitude := Nat.not_lt.mp fun h => hyfin (decide_eq_true h)
    by_cases hxfin : x.isFinite = true
    · rw [hfinite hx hxfin]
      refine ⟨plus_ofUnits _ _, ((plus_ofUnits _ _).le_iff hy).mpr ?_⟩
      rw [magnitude_ofUnits]
      exact (roundMagnitude_le _ _).trans htop
    · rw [hinfinite hxfin]
      exact ⟨hx, hle⟩

theorem toUnsigned_mono (hx : Plus x) (hle : x ≤ y) (hy : Plus y) (w : Nat) :
    x.toUnsigned w ≤ y.toUnsigned w := by
  have hmag := (hx.le_iff hy).mp hle
  have hunits := Nat.div_le_div_right (c := one) (units_mono hmag)
  simp only [toUnsigned, hx.1, hx.2, hy.1, hy.2, Bool.or_self, Bool.false_eq_true, if_false]
  split
  next hxinf =>
    have hyinf : y.isInfinite = true := by
      have hxmag : x.magnitude = infMagnitude := of_decide_eq_true hxinf
      exact decide_eq_true (le_antisymm (magnitude_le hy.1) (by omega))
    rw [if_pos hyinf]
  next =>
    split
    · exact min_le_right _ _
    · exact min_le_min_right _ hunits

end Choice

end Binary64
