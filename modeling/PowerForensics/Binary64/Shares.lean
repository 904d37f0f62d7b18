import PowerForensics.Binary64.Halves

/-! # Shares of a range

Where a number lies in a range is a quotient of two differences. It is a number between zero and
one as long as the range is not empty and the first of the differences does not overflow.
-/

namespace Binary64

/-! ## What is finite only of finite numbers -/

section Operands

variable {x y : Binary64}

theorem not_finite_of_nan (hx : x.isNaN = true) : x.isFinite = false := by
  have hlt : infMagnitude < x.magnitude := of_decide_eq_true hx
  exact decide_eq_false (by omega)

theorem not_finite_of_infinite (hx : x.isInfinite = true) : x.isFinite = false := by
  have heq : x.magnitude = infMagnitude := of_decide_eq_true hx
  exact decide_eq_false (by omega)

theorem nan_not_finite : nan.isFinite = false := not_finite_of_nan isNaN_nan

theorem infinity_not_finite (neg : Bool) : (infinity neg).isFinite = false :=
  not_finite_of_infinite (decide_eq_true (magnitude_ofMagnitude neg (by decide)))

theorem finite_of_fields (hnan : x.isNaN = false) (hinf : x.isInfinite = false) :
    x.isFinite = true :=
  (finite_or_infinite hnan).resolve_right (by simp [hinf])

theorem finite_of_div (h : (x / y).isFinite = true) :
    x.isFinite = true ∧ y.magnitude ≠ 0 := by
  have h : (div x y).isFinite = true := h
  unfold div at h
  split at h
  next => simp [nan_not_finite] at h
  next hnan =>
    obtain ⟨hxnan, hynan⟩ : x.isNaN = false ∧ y.isNaN = false := by simpa using hnan
    split at h
    next hinf =>
      split at h
      · simp [nan_not_finite] at h
      · simp [infinity_not_finite] at h
    next hxinf =>
      refine ⟨finite_of_fields hxnan (by simpa using hxinf), fun hzero => ?_⟩
      rw [not_infinite_of_zero hzero, if_neg Bool.false_ne_true, if_pos hzero] at h
      split at h
      · simp [nan_not_finite] at h
      · simp [infinity_not_finite] at h

end Operands

/-! ## Differences in a range -/

section Range

variable {lo hi x y : Binary64}

theorem sumRank_zero : sumRank 0 = 0 := by
  simp [sumRank, roundMagnitude, roundHalfEven]

theorem sumRank_pos {s : Int} (hs : 0 < s) : 0 < sumRank s := by
  have hpos : 0 < roundMagnitude s.natAbs 1 := roundMagnitude_pos (by omega)
  rw [sumRank, if_neg (by omega)]
  omega

theorem sumRank_signedUnits (hx : x.isNaN = false) : sumRank x.signedUnits = x.rank := by
  have hround : roundMagnitude x.signedUnits.natAbs 1 = x.magnitude := by
    rw [natAbs_signedUnits, roundMagnitude_units (magnitude_le hx)]
  cases hneg : x.negative with
  | true =>
      rw [sumRank, hround, rank, hneg, if_pos rfl, signedUnits_neg hneg]
      split
      · rfl
      · next hle =>
        have hzero : x.magnitude = 0 := units_eq_zero (by omega)
        simp [hzero]
  | false =>
      rw [sumRank, hround, rank, hneg, if_neg Bool.false_ne_true, signedUnits_pos hneg,
        if_neg (by omega)]

theorem signedUnits_lt (hx : x.isNaN = false) (hy : y.isNaN = false) (hlt : x.rank < y.rank) :
    x.signedUnits < y.signedUnits := by
  refine lt_of_le_of_ne (signedUnits_mono hlt.le) fun heq => ?_
  rw [← sumRank_signedUnits hx, ← sumRank_signedUnits hy, heq] at hlt
  exact lt_irrefl _ hlt

theorem rank_sub (hx : x.isFinite = true) (hy : y.isFinite = true) :
    (x - y).isNaN = false ∧ (x - y).rank = sumRank (x.signedUnits - y.signedUnits) := by
  have hneg := rank_add hx ((isFinite_neg y).trans hy)
  rwa [signedUnits_opposite] at hneg

theorem zero_le_of_rank (hx : x.isNaN = false) (hrank : 0 ≤ x.rank) : (0.0 : Binary64) ≤ x :=
  ⟨patterns.2.1.2.1, hx, by rwa [patterns.2.1.1]⟩

theorem rank_of_zero_le (hx : (0.0 : Binary64) ≤ x) : 0 ≤ x.rank := by
  have hrank := hx.2.2
  rwa [patterns.2.1.1] at hrank

theorem zero_lt_iff_rank (hx : x.isNaN = false) : (0.0 : Binary64) < x ↔ 0 < x.rank := by
  rw [lt_iff_rank patterns.2.1.2.1 hx, patterns.2.1.1]

theorem eq_infinity (hx : x.isInfinite = true) : x = infinity x.negative := by
  have hmag : x.magnitude = infMagnitude := of_decide_eq_true hx
  rw [infinity, ← hmag, ofMagnitude_eta]

theorem negative_of_infinite_le (hlow : lo ≤ x) (hx : x.isFinite = true)
    (hinf : lo.isInfinite = true) : lo.negative = true := by
  have hlomag : lo.magnitude = infMagnitude := of_decide_eq_true hinf
  have hxmag : x.magnitude < infMagnitude := of_decide_eq_true hx
  by_contra hneg
  have hrank := hlow.2.2
  rw [rank, if_neg hneg, hlomag] at hrank
  unfold rank at hrank
  split at hrank <;> omega

theorem positive_of_le_infinite (hhigh : x ≤ hi) (hx : x.isFinite = true)
    (hinf : hi.isInfinite = true) : hi.negative = false := by
  have hhimag : hi.magnitude = infMagnitude := of_decide_eq_true hinf
  have hxmag : x.magnitude < infMagnitude := of_decide_eq_true hx
  by_contra hneg
  have hrank := hhigh.2.2
  unfold rank at hrank
  rw [if_pos (show hi.negative = true by simpa using hneg), hhimag] at hrank
  split at hrank <;> omega

theorem rank_of_finite (hx : x.isFinite = true) :
    -(infMagnitude : Int) < x.rank ∧ x.rank < infMagnitude := by
  have hmag : x.magnitude < infMagnitude := of_decide_eq_true hx
  unfold rank
  split <;> omega

/-- The difference to a range that has no lower end. -/
theorem sub_of_infinite (hinf : lo.isInfinite = true) (hneg : lo.negative = true)
    (hx : x.isNaN = false) (hpos : x.isInfinite = true → x.negative = false) :
    x - lo = infinity false := by
  have hlo : lo.isNaN = false := isNaN_of_infinite hinf
  have heq : -lo = infinity false := by
    rw [eq_infinity (x := -lo) (by simpa using hinf), negative_neg, hneg]
    rfl
  change add x (-lo) = _
  cases hxinf : x.isInfinite with
  | true =>
      have hxeq : x = infinity false := by rw [eq_infinity hxinf, hpos hxinf]
      have hsigns : (x.negative != (-lo).negative) = false := by simp [hpos hxinf, hneg]
      simp only [add, isNaN_neg, isInfinite_neg, hx, hlo, hxinf, hinf, hsigns, Bool.or_self,
        Bool.and_false, Bool.false_eq_true, if_false, if_true]
      exact hxeq
  | false =>
      simp only [add, isNaN_neg, isInfinite_neg, hx, hlo, hxinf, hinf, Bool.or_self,
        Bool.false_eq_true, if_false, if_true]
      exact heq

/-- A number is not below the lower end of its range. -/
theorem zero_le_sub (hlow : lo ≤ x) (hx : x.isFinite = true) : (0.0 : Binary64) ≤ x - lo := by
  obtain ⟨hnan, hinf⟩ := fields_of_finite hx
  obtain hlo | hloinf := finite_or_infinite hlow.1
  · obtain ⟨hdnan, hdrank⟩ := rank_sub hx hlo
    refine zero_le_of_rank hdnan ?_
    rw [hdrank, ← sumRank_zero]
    exact sumRank_mono (Int.sub_nonneg_of_le (signedUnits_mono hlow.2.2))
  · rw [sub_of_infinite hloinf (negative_of_infinite_le hlow hx hloinf) hnan (by simp [hinf])]
    exact le_infinity patterns.2.1.2.1

/-- A range without a lower or an upper end. -/
theorem sub_of_open (hlow : lo ≤ x) (hhigh : x ≤ hi) (hx : x.isFinite = true)
    (hopen : lo.isInfinite = true ∨ hi.isInfinite = true) :
    hi - lo = infinity false ∧ lo < hi := by
  have hhipos := positive_of_le_infinite hhigh hx
  have hxrank := rank_of_finite hx
  cases hloinf : lo.isInfinite with
  | true =>
      have hneg := negative_of_infinite_le hlow hx hloinf
      refine ⟨sub_of_infinite hloinf hneg hhigh.2.1 hhipos, ?_⟩
      have hlorank : lo.rank = -(infMagnitude : Int) := by
        rw [rank, if_pos hneg, of_decide_eq_true hloinf]
      exact lt_of_lt_of_le_number ⟨hlow.1, hlow.2.1, by omega⟩ hhigh
  | false =>
      have hhiinf := hopen.resolve_left (by simp [hloinf])
      have hneg := hhipos hhiinf
      refine ⟨?_, ?_⟩
      · have hhieq : hi = infinity false := by rw [eq_infinity hhiinf, hneg]
        change add hi (-lo) = _
        simp only [add, isNaN_neg, isInfinite_neg, hhigh.2.1, hlow.1, hloinf, hhiinf,
          Bool.or_self, Bool.false_and, Bool.false_eq_true, if_false, if_true]
        exact hhieq
      · have hhirank : hi.rank = infMagnitude := by
          rw [rank, hneg, if_neg Bool.false_ne_true, of_decide_eq_true hhiinf]
        exact lt_of_le_of_lt_number hlow ⟨hhigh.1, hhigh.2.1, by omega⟩

/-- How far a number is above the lower end, and how far the upper end is. -/
theorem sub_between (hlow : lo ≤ x) (hhigh : x ≤ hi) (hx : x.isFinite = true) :
    (0.0 : Binary64) ≤ x - lo ∧ x - lo ≤ hi - lo ∧ ((0.0 : Binary64) < hi - lo ↔ lo < hi) := by
  have hstart := zero_le_sub hlow hx
  refine ⟨hstart, ?_⟩
  by_cases hopen : lo.isInfinite = true ∨ hi.isInfinite = true
  · obtain ⟨heq, hlt⟩ := sub_of_open hlow hhigh hx hopen
    rw [heq]
    refine ⟨le_infinity hstart.2.1, iff_of_true ?_ hlt⟩
    exact (zero_lt_iff_rank plus_infinity.1).mpr
      (by rw [plus_infinity.rank_eq, infinity, magnitude_ofMagnitude _ (by decide)]; decide)
  · obtain ⟨hloinf, hhiinf⟩ := not_or.mp hopen
    have hlo := finite_of_fields hlow.1 (by simpa using hloinf)
    have hhi := finite_of_fields hhigh.2.1 (by simpa using hhiinf)
    obtain ⟨hdnan, hdrank⟩ := rank_sub hx hlo
    obtain ⟨hnan, hrank⟩ := rank_sub hhi hlo
    refine ⟨⟨hdnan, hnan, ?_⟩, ?_⟩
    · rw [hdrank, hrank]
      exact sumRank_mono (Int.sub_le_sub_right (signedUnits_mono hhigh.2.2) _)
    · rw [zero_lt_iff_rank hnan, lt_iff_rank hlow.1 hhigh.2.1, hrank]
      constructor
      · intro hpos
        by_contra hle
        have hzero := sumRank_mono (Int.sub_nonpos_of_le (signedUnits_mono (not_lt.mp hle)))
        rw [sumRank_zero] at hzero
        exact absurd hpos (not_lt.mpr hzero)
      · intro hlt
        exact sumRank_pos (Int.sub_pos_of_lt (signedUnits_lt hlow.1 hhigh.2.1 hlt))

theorem magnitude_le_of_le (hx : (0.0 : Binary64) ≤ x) (hle : x ≤ y) :
    x.magnitude ≤ y.magnitude := by
  have hxrank := rank_of_zero_le hx
  have hrank := hle.2.2
  unfold rank at hxrank hrank
  split_ifs at hxrank hrank <;> omega

/-- The quotient of a number and one that is not below it. -/
theorem within_quotient (hx : (0.0 : Binary64) ≤ x) (hle : x ≤ y) (hpos : (0.0 : Binary64) < y)
    (hfinite : x.isFinite = true) : Within 0 (x / y) := by
  have hzero := magnitude_ne_zero_of_lt hpos
  obtain hy | hinf := finite_or_infinite hle.2.1
  · apply within_div (Nat.zero_le _) hfinite hy hzero
    rw [Nat.pow_zero, Nat.one_mul]
    exact units_mono (magnitude_le_of_le hx hle)
  · obtain ⟨hnan, hxinf⟩ := fields_of_finite hfinite
    have heq : x / y = zero (x.negative != y.negative) := by
      change div x y = _
      simp only [div, hnan, hxinf, hle.2.1, hinf, Bool.or_self, Bool.false_eq_true, if_false,
        if_true]
    rw [heq]
    exact within_of_zero (magnitude_zero _)

/-- A number of a range has a finite share of it exactly where the range is not empty and the
number is not too far above the lower end. -/
theorem isFinite_share_iff (hlow : lo ≤ x) (hhigh : x ≤ hi) (hx : x.isFinite = true) :
    ((x - lo) / (hi - lo)).isFinite = true ↔ lo < hi ∧ (x - lo).isFinite = true := by
  obtain ⟨hstart, hle, hpos⟩ := sub_between hlow hhigh hx
  constructor
  · intro h
    obtain ⟨hfinite, hzero⟩ := finite_of_div h
    refine ⟨hpos.mp ((zero_lt_iff_rank hle.2.1).mpr ?_), hfinite⟩
    have hrank := (rank_of_zero_le hstart).trans hle.2.2
    unfold rank at hrank ⊢
    split_ifs at hrank ⊢ <;> omega
  · rintro ⟨hlt, hfinite⟩
    exact (within_quotient hstart hle (hpos.mpr hlt) hfinite).1

theorem within_share (hlow : lo ≤ x) (hhigh : x ≤ hi) (hx : x.isFinite = true)
    (hshare : ((x - lo) / (hi - lo)).isFinite = true) : Within 0 ((x - lo) / (hi - lo)) := by
  obtain ⟨hlt, hfinite⟩ := (isFinite_share_iff hlow hhigh hx).mp hshare
  obtain ⟨hstart, hle, hpos⟩ := sub_between hlow hhigh hx
  exact within_quotient hstart hle (hpos.mpr hlt) hfinite

/-- A share, at most one, is placed on an axis that begins somewhere and has some length. -/
theorem isFinite_placed_iff {start length : Binary64} (hstart : Within 10 start)
    (hlength : Within 10 length) (hx : x.isFinite = true → Within 1 x) :
    (start + x * length).isFinite = true ↔ x.isFinite = true := by
  constructor
  · exact fun h => (finite_of_mul (finite_of_add h).2).1
  · intro h
    exact ((hstart.mono (by decide)).add ((hx h).mul hlength (by decide)) (by decide)).1

end Range

/-! ## A wider range -/

section Margin

variable {w x y : Binary64}

theorem add_exchange (x y : Binary64) : x + y = y + x := by
  change add x y = add y x
  unfold add
  cases hx : x.isNaN with
  | true => simp
  | false =>
  cases hy : y.isNaN with
  | true => simp
  | false =>
  simp only [Bool.or_self, Bool.false_eq_true, if_false]
  cases hxinf : x.isInfinite with
  | true =>
      cases hyinf : y.isInfinite with
      | false => simp
      | true =>
          have hmag : x.magnitude = y.magnitude :=
            (of_decide_eq_true hxinf).trans (of_decide_eq_true hyinf).symm
          by_cases hsign : x.negative = y.negative
          · rw [ext_fields hsign hmag]
          · simp [hsign, Ne.symm hsign]
  | false => simp [Int.add_comm, Bool.and_comm]

theorem le_add_number (hw : w.isFinite = true) (hlow : w ≤ x) (hy : (0.0 : Binary64) ≤ y) :
    x ≤ x + y := by
  have hypos : y.isInfinite = true → y.negative = false :=
    positive_of_le_infinite hy (by decide +kernel)
  obtain hx | hxinf := finite_or_infinite hlow.2.1
  · obtain hyfin | hyinf := finite_or_infinite hy.2.1
    · obtain ⟨hnan, hrank⟩ := rank_add hx hyfin
      refine ⟨hlow.2.1, hnan, ?_⟩
      have hunits : (0.0 : Binary64).signedUnits ≤ y.signedUnits := signedUnits_mono hy.2.2
      rw [signedUnits_of_zero (by decide +kernel)] at hunits
      rw [hrank, ← sumRank_signedUnits hlow.2.1]
      exact sumRank_mono (Int.le_add_of_nonneg_right hunits)
    · have heq : x + y = infinity false := by
        change add x y = _
        simp only [add, hlow.2.1, hy.2.1, (fields_of_finite hx).2, hyinf, Bool.or_self,
          Bool.false_eq_true, if_false, if_true]
        rw [eq_infinity hyinf, hypos hyinf]
      rw [heq]
      exact le_infinity hlow.2.1
  · have hxpos := positive_of_le_infinite hlow hw hxinf
    have heq : x + y = x := by
      have hsigns : (y.isInfinite && x.negative != y.negative) = false := by
        cases hyinf : y.isInfinite with
        | false => rfl
        | true => rw [hxpos, hypos hyinf]; rfl
      change add x y = _
      simp only [add, hlow.2.1, hy.2.1, hxinf, hsigns, Bool.or_self, Bool.false_eq_true, if_false,
        if_true]
    rw [heq]
    exact le_of_number hlow.2.1

theorem neg_le_neg_number (hle : x ≤ y) : -y ≤ -x :=
  ⟨(isNaN_neg y).trans hle.2.1, (isNaN_neg x).trans hle.1, by
    rw [rank_neg, rank_neg]
    exact Int.neg_le_neg hle.2.2⟩

theorem sub_le_number (hw : w.isFinite = true) (hhigh : x ≤ w) (hy : (0.0 : Binary64) ≤ y) :
    x - y ≤ x := by
  have hle : -x ≤ y - x := by
    have hsum := le_add_number ((isFinite_neg w).trans hw) (neg_le_neg_number hhigh) hy
    rwa [add_exchange] at hsum
  have hopposite := (sub_exchange x y).2
  have hnan : (x - y).isNaN = false := by
    rw [hopposite.1, isNaN_neg]
    exact hle.2.1
  refine ⟨hnan, hhigh.1, ?_⟩
  have hrank := hopposite.2 hnan
  have hrank' := hle.2.2
  rw [rank_neg] at hrank hrank'
  omega

end Margin

end Binary64
