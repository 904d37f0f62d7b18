import Mathlib.Data.List.Perm.Basic
import PowerForensics.Binary64.Order

/-! # Numbers that compare alike

Both zeros compare alike, and so do all patterns that are not numbers. The least and the
greatest number of a list depend on its order only up to this, and so do the sums,
differences and quotients they are put into.
-/

namespace Binary64

/-- Neither is a number, or both have the same place. -/
def Alike (x y : Binary64) : Prop := x.isNaN = y.isNaN ∧ (x.isNaN = false → x.rank = y.rank)

theorem Alike.refl (x : Binary64) : Alike x x := ⟨rfl, fun _ => rfl⟩

theorem Alike.symm {x y : Binary64} (h : Alike x y) : Alike y x :=
  ⟨h.1.symm, fun hy => (h.2 (h.1.trans hy)).symm⟩

theorem eq_of_rank {x y : Binary64} (hrank : x.rank = y.rank) :
    x = y ∨ x.magnitude = 0 ∧ y.magnitude = 0 := by
  unfold rank at hrank
  cases hx : x.negative <;> cases hy : y.negative <;>
    simp only [hx, hy, if_true, if_false, Bool.false_eq_true] at hrank
  · exact Or.inl (ext_fields (hx.trans hy.symm) (by omega))
  · exact Or.inr (by omega)
  · exact Or.inr (by omega)
  · exact Or.inl (ext_fields (hx.trans hy.symm) (by omega))

theorem Alike.cases {x y : Binary64} (h : Alike x y) :
    x = y ∨ x.isNaN ∧ y.isNaN ∨ x.magnitude = 0 ∧ y.magnitude = 0 := by
  cases hx : x.isNaN with
  | true => exact Or.inr (Or.inl ⟨rfl, h.1.symm.trans hx⟩)
  | false =>
      obtain heq | hzero := eq_of_rank (h.2 hx)
      · exact Or.inl heq
      · exact Or.inr (Or.inr hzero)

theorem alike_of_nan {x y : Binary64} (hx : x.isNaN) (hy : y.isNaN) : Alike x y :=
  ⟨hx.trans hy.symm, fun h => absurd (h.symm.trans hx) Bool.false_ne_true⟩

theorem not_nan_of_zero {x : Binary64} (hx : x.magnitude = 0) : x.isNaN = false := by
  simp [isNaN, hx]

theorem rank_of_zero {x : Binary64} (hx : x.magnitude = 0) : x.rank = 0 := by simp [rank, hx]

theorem alike_of_zero {x y : Binary64} (hx : x.magnitude = 0) (hy : y.magnitude = 0) :
    Alike x y :=
  ⟨(not_nan_of_zero hx).trans (not_nan_of_zero hy).symm,
    fun _ => (rank_of_zero hx).trans (rank_of_zero hy).symm⟩

/-- The rank of zero, and which patterns are numbers. -/
theorem literal_fields : (0.0 : Binary64).rank = 0 ∧ (0.0 : Binary64).isNaN = false ∧
    nan.isNaN = true := patterns.2.1

/-- Numbers that compare alike and are not zero are the same. -/
theorem Alike.eq_of_pos {x y : Binary64} (h : Alike x y) (hpos : (0.0 : Binary64) < x) :
    x = y := by
  have hzero : (0.0 : Binary64).rank = 0 := literal_fields.1
  obtain ⟨-, hnan, hlt⟩ := hpos
  rw [hzero] at hlt
  obtain heq | ⟨hmag, -⟩ := eq_of_rank (h.2 hnan)
  · exact heq
  · rw [rank_of_zero hmag] at hlt
    omega

theorem Alike.lt_iff {x y : Binary64} (h : Alike x y) (z : Binary64) : z < x ↔ z < y := by
  constructor
  · rintro ⟨hz, hx, hlt⟩
    exact ⟨hz, h.1.symm.trans hx, (h.2 hx).symm ▸ hlt⟩
  · rintro ⟨hz, hy, hlt⟩
    have hx := h.1.trans hy
    exact ⟨hz, hx, (h.2 hx) ▸ hlt⟩

theorem Alike.gt_iff {x y : Binary64} (h : Alike x y) (z : Binary64) : x < z ↔ y < z := by
  constructor
  · rintro ⟨hx, hz, hlt⟩
    exact ⟨h.1.symm.trans hx, hz, (h.2 hx) ▸ hlt⟩
  · rintro ⟨hy, hz, hlt⟩
    have hx := h.1.trans hy
    exact ⟨hx, hz, (h.2 hx).symm ▸ hlt⟩

theorem Alike.le_iff {x y : Binary64} (h : Alike x y) (z : Binary64) : z ≤ x ↔ z ≤ y := by
  constructor
  · rintro ⟨hz, hx, hle⟩
    exact ⟨hz, h.1.symm.trans hx, (h.2 hx).symm ▸ hle⟩
  · rintro ⟨hz, hy, hle⟩
    have hx := h.1.trans hy
    exact ⟨hz, hx, (h.2 hx) ▸ hle⟩

/-! ## Arithmetic -/

theorem magnitude_zero (neg : Bool) : (zero neg).magnitude = 0 := by
  rw [zero, magnitude_ofMagnitude neg (by decide)]

theorem signedUnits_of_zero {x : Binary64} (hx : x.magnitude = 0) : x.signedUnits = 0 := by
  simp [signedUnits, hx, units]

theorem not_infinite_of_zero {x : Binary64} (hx : x.magnitude = 0) : x.isInfinite = false := by
  simp [isInfinite, hx, infMagnitude]

theorem nan_add_left {x : Binary64} (hx : x.isNaN) (y : Binary64) : x + y = nan := by
  change add x y = nan
  simp [add, hx]

theorem nan_add_right (x : Binary64) {y : Binary64} (hy : y.isNaN) : x + y = nan := by
  change add x y = nan
  simp [add, hy]

/-- A zero is as good as another one to add to. -/
theorem alike_zero_add {x x' : Binary64} (hx : x.magnitude = 0) (hx' : x'.magnitude = 0)
    (y : Binary64) : Alike (x + y) (x' + y) := by
  change Alike (add x y) (add x' y)
  simp only [add, not_nan_of_zero hx, not_nan_of_zero hx', not_infinite_of_zero hx,
    not_infinite_of_zero hx', signedUnits_of_zero hx, signedUnits_of_zero hx', Bool.false_or,
    Bool.false_eq_true, if_false, zero_add]
  split
  · exact Alike.refl _
  split
  · exact Alike.refl _
  split
  · exact alike_of_zero (magnitude_zero _) (magnitude_zero _)
  · exact Alike.refl _

theorem alike_add_zero (x : Binary64) {y y' : Binary64} (hy : y.magnitude = 0)
    (hy' : y'.magnitude = 0) : Alike (x + y) (x + y') := by
  change Alike (add x y) (add x y')
  simp only [add, not_nan_of_zero hy, not_nan_of_zero hy', not_infinite_of_zero hy,
    not_infinite_of_zero hy', signedUnits_of_zero hy, signedUnits_of_zero hy', Bool.or_false,
    Bool.false_eq_true, if_false, Bool.false_and, add_zero]
  split
  · exact Alike.refl _
  split
  · exact Alike.refl _
  split
  · exact alike_of_zero (magnitude_zero _) (magnitude_zero _)
  · exact Alike.refl _

theorem Alike.trans {x y z : Binary64} (h : Alike x y) (h' : Alike y z) : Alike x z :=
  ⟨h.1.trans h'.1, fun hx => (h.2 hx).trans (h'.2 (h.1.symm.trans hx))⟩

theorem Alike.add {x x' y y' : Binary64} (hx : Alike x x') (hy : Alike y y') :
    Alike (x + y) (x' + y') := by
  have hleft : Alike (x + y) (x' + y) := by
    obtain rfl | ⟨hnan, hnan'⟩ | ⟨hzero, hzero'⟩ := hx.cases
    · exact Alike.refl _
    · rw [nan_add_left hnan, nan_add_left hnan']
      exact Alike.refl _
    · exact alike_zero_add hzero hzero' y
  refine hleft.trans ?_
  obtain rfl | ⟨hnan, hnan'⟩ | ⟨hzero, hzero'⟩ := hy.cases
  · exact Alike.refl _
  · rw [nan_add_right _ hnan, nan_add_right _ hnan']
    exact Alike.refl _
  · exact alike_add_zero x' hzero hzero'

@[simp] theorem isNaN_neg (x : Binary64) : (-x).isNaN = x.isNaN := by simp [isNaN]

@[simp] theorem rank_neg (x : Binary64) : (-x).rank = -x.rank := by
  cases hx : x.negative <;> simp [rank, hx]

theorem Alike.neg {x y : Binary64} (h : Alike x y) : Alike (-x) (-y) :=
  ⟨by simpa using h.1, fun hx => by simpa using h.2 (by simpa using hx)⟩

theorem Alike.sub {x x' y y' : Binary64} (hx : Alike x x') (hy : Alike y y') :
    Alike (x - y) (x' - y') := hx.add hy.neg

theorem Alike.div_right {x x' : Binary64} (h : Alike x x') (y : Binary64) :
    Alike (x / y) (x' / y) := by
  change Alike (div x y) (div x' y)
  obtain rfl | ⟨hnan, hnan'⟩ | ⟨hzero, hzero'⟩ := h.cases
  · exact Alike.refl _
  · simp only [div, hnan, hnan', Bool.true_or, if_true]
    exact Alike.refl _
  · have hround : ∀ d, roundMagnitude 0 d = 0 := by
      intro d
      simp [roundMagnitude, roundHalfEven]
    simp only [div, not_nan_of_zero hzero, not_nan_of_zero hzero', not_infinite_of_zero hzero,
      not_infinite_of_zero hzero', hzero, hzero', Bool.false_or, Bool.false_eq_true, if_false,
      if_true]
    split
    · exact Alike.refl _
    split
    · exact alike_of_zero (magnitude_zero _) (magnitude_zero _)
    split
    · exact Alike.refl _
    · have hunits : units 0 * one = 0 := by simp [units]
      rw [hunits]
      exact alike_of_zero (by rw [magnitude_ofUnits, hround]) (by rw [magnitude_ofUnits, hround])

/-! ## Exchanged arguments -/

theorem signedUnits_opposite (x : Binary64) : (-x).signedUnits = -x.signedUnits := by
  cases hx : x.negative <;> simp [signedUnits, hx]

@[simp] theorem isInfinite_neg (x : Binary64) : (-x).isInfinite = x.isInfinite := by
  simp [isInfinite]

/-- Of one magnitude and of opposite signs, or both zero or not a number. -/
def Opposite (x y : Binary64) : Prop := x.magnitude = y.magnitude ∧ Alike x (-y)

theorem opposite_of_fields {x y : Binary64} (hmag : x.magnitude = y.magnitude)
    (hneg : x.negative = !y.negative) : Opposite x y := by
  have heq : x = -y := ext_fields (by simpa using hneg) (by simpa using hmag)
  exact ⟨hmag, heq ▸ Alike.refl _⟩

theorem opposite_nan : Opposite nan nan := by
  have hnan : nan.isNaN := literal_fields.2.2
  exact ⟨rfl, alike_of_nan hnan (by simpa using hnan)⟩

theorem opposite_of_zero {x y : Binary64} (hx : x.magnitude = 0) (hy : y.magnitude = 0) :
    Opposite x y :=
  ⟨hx.trans hy.symm, alike_of_zero hx (by simpa using hy)⟩

theorem opposite_infinite {x y : Binary64} (hx : x.isInfinite) (hy : y.isInfinite) :
    Opposite (if x.negative != !y.negative then nan else x)
      (if y.negative != !x.negative then nan else y) := by
  have hmag : x.magnitude = y.magnitude := (of_decide_eq_true hx).trans (of_decide_eq_true hy).symm
  cases hxn : x.negative <;> cases hyn : y.negative
  · exact opposite_nan
  · exact opposite_of_fields hmag (by simp [hxn, hyn])
  · exact opposite_of_fields hmag (by simp [hxn, hyn])
  · exact opposite_nan

/-- A difference is taken the other way round with the opposite sign. -/
theorem sub_exchange (x y : Binary64) : Opposite (x - y) (y - x) := by
  change Opposite (add x (-y)) (add y (-x))
  simp only [add, isNaN_neg, isInfinite_neg, negative_neg, signedUnits_opposite]
  cases hx : x.isNaN with
  | true => simpa using opposite_nan
  | false =>
  cases hy : y.isNaN with
  | true => simpa using opposite_nan
  | false =>
  simp only [Bool.or_self, Bool.false_eq_true, if_false]
  cases hxi : x.isInfinite with
  | true =>
      cases hyi : y.isInfinite with
      | true => simpa using opposite_infinite hxi hyi
      | false => simpa using opposite_of_fields (x := x) (y := -x) (by simp) (by simp)
  | false =>
  cases hyi : y.isInfinite with
  | true => simpa using opposite_of_fields (x := -y) (y := y) (by simp) (by simp)
  | false =>
  have hswap : y.signedUnits + -x.signedUnits = -(x.signedUnits + -y.signedUnits) := by ring
  simp only [Bool.false_eq_true, if_false, hswap, neg_eq_zero, Int.natAbs_neg]
  split
  · exact opposite_of_zero (magnitude_zero _) (magnitude_zero _)
  · next hsum =>
    refine opposite_of_fields (by simp) ?_
    rw [negative_ofUnits, negative_ofUnits, ← decide_not, decide_eq_decide]
    omega

theorem Opposite.abs_eq {x y : Binary64} (h : Opposite x y) : x.abs = y.abs := by
  rw [abs, abs, h.1]

/-- A product has the opposite sign where one factor has. -/
theorem Opposite.mul_right {x y : Binary64} (h : Opposite x y) (z : Binary64) :
    Opposite (x * z) (y * z) := by
  change Opposite (mul x z) (mul y z)
  obtain rfl | ⟨hx, hy⟩ | ⟨hx, hy⟩ := h.2.cases
  · simp only [mul, isNaN_neg, isInfinite_neg, magnitude_neg, negative_neg]
    split
    · exact opposite_nan
    split
    · split
      · exact opposite_nan
      · have hinf : infMagnitude < 2 ^ 63 := by decide
        refine opposite_of_fields ?_ ?_
        · rw [infinity, infinity, magnitude_ofMagnitude _ hinf, magnitude_ofMagnitude _ hinf]
        · rw [infinity, infinity, negative_ofMagnitude _ hinf, negative_ofMagnitude _ hinf]
          cases y.negative <;> cases z.negative <;> rfl
    · refine opposite_of_fields ?_ ?_
      · rw [magnitude_ofUnits, magnitude_ofUnits]
      · rw [negative_ofUnits, negative_ofUnits]
        cases y.negative <;> cases z.negative <;> rfl
  · have hy' : y.isNaN := by simpa using hy
    simp only [mul, hx, hy', Bool.true_or, if_true]
    exact opposite_nan
  · have hy' : y.magnitude = 0 := by simpa using hy
    have hzero : roundMagnitude 0 one = 0 := by simp [roundMagnitude, roundHalfEven]
    simp only [mul, not_nan_of_zero hx, not_nan_of_zero hy', not_infinite_of_zero hx,
      not_infinite_of_zero hy', hx, hy', Bool.false_or, decide_true, Bool.true_or, if_true]
    split
    · exact opposite_nan
    split
    · exact opposite_nan
    · have hunits : units 0 * units z.magnitude = 0 := by simp [units]
      rw [hunits]
      exact opposite_of_zero (by rw [magnitude_ofUnits, hzero]) (by rw [magnitude_ofUnits, hzero])

/-- Of two opposite numbers one is positive, unless they are zero. -/
theorem Opposite.pos_iff {x y : Binary64} (h : Opposite x y) (hnan : x.isNaN = false)
    (hmag : x.magnitude ≠ 0) : (0.0 : Binary64) < x ↔ ¬(0.0 : Binary64) < y := by
  obtain ⟨hzero, hnumber, -⟩ := literal_fields
  have hnan' : y.isNaN = false := by simpa [isNaN, h.1] using hnan
  have hrank : x.rank = -y.rank := by simpa using h.2.2 hnan
  have hne : x.rank ≠ 0 := by
    unfold rank
    split <;> omega
  constructor
  · rintro ⟨-, -, hx⟩ ⟨-, -, hy⟩
    omega
  · intro hy
    refine ⟨hnumber, hnan, ?_⟩
    by_contra hx
    exact hy ⟨hnumber, hnan', by omega⟩

/-- What is not below a positive bound is not zero. -/
theorem magnitude_ne_zero_of_not_lt {x bound : Binary64} (hbound : (0.0 : Binary64) < bound)
    (hx : ¬x.abs < bound) : x.magnitude ≠ 0 := by
  intro hmag
  have hzero : (0.0 : Binary64).rank = 0 := literal_fields.1
  have habs : x.abs.magnitude = 0 := by simpa using hmag
  refine hx ⟨not_nan_of_zero habs, hbound.2.1, ?_⟩
  rw [rank_of_zero habs]
  exact hzero ▸ hbound.2.2

/-- Two numbers, not infinities of one sign. -/
def Subtractable (x y : Binary64) : Prop :=
  x.isNaN = false ∧ y.isNaN = false ∧
    (x.isInfinite → y.isInfinite → x.negative ≠ y.negative)

theorem isNaN_of_infinite {x : Binary64} (hx : x.isInfinite) : x.isNaN = false := by
  simp [isNaN, of_decide_eq_true hx]

theorem isNaN_sub_iff (x y : Binary64) : (y - x).isNaN = false ↔ Subtractable x y := by
  have hnan : nan.isNaN := literal_fields.2.2
  change (add y (-x)).isNaN = false ↔ _
  simp only [add, isNaN_neg, isInfinite_neg, negative_neg, Subtractable]
  cases hx : x.isNaN with
  | true => simp [hnan]
  | false =>
  cases hy : y.isNaN with
  | true => simp [hnan]
  | false =>
  cases hyi : y.isInfinite with
  | true =>
      have hnumber := isNaN_of_infinite hyi
      cases hxi : x.isInfinite with
      | true =>
          cases hxn : x.negative <;> cases hyn : y.negative <;> simp [hnan, hnumber]
      | false => simp [hnumber]
  | false =>
      cases hxi : x.isInfinite with
      | true => simp [hx]
      | false =>
          have hzero : ∀ neg, (zero neg).isNaN = false :=
            fun neg => not_nan_of_zero (magnitude_zero neg)
          simp only [Bool.or_self, Bool.false_eq_true, if_false, false_implies, and_self, iff_true]
          split
          · exact hzero _
          · exact isNaN_ofUnits _ _ _

/-! ## The least and the greatest of a list -/

/-- An element that is before all numbers of a list, or not a number if there are none. -/
def Foremost (le : Int → Int → Prop) (m : Binary64) (values : List Binary64) : Prop :=
  m ∈ values ∧ ∀ v ∈ values, v.isNaN = false → m.isNaN = false ∧ le m.rank v.rank

theorem foremost_alike {le : Int → Int → Prop} (hantisymm : ∀ a b, le a b → le b a → a = b)
    {m m' : Binary64} {values values' : List Binary64} (hsame : ∀ v, v ∈ values ↔ v ∈ values')
    (hm : Foremost le m values) (hm' : Foremost le m' values') : Alike m m' := by
  obtain ⟨hmem, hle⟩ := hm
  obtain ⟨hmem', hle'⟩ := hm'
  have hforth : m.isNaN = false → m'.isNaN = false ∧ le m'.rank m.rank :=
    hle' m ((hsame m).mp hmem)
  have hback : m'.isNaN = false → m.isNaN = false ∧ le m.rank m'.rank :=
    hle m' ((hsame m').mpr hmem')
  constructor
  · cases hnan : m.isNaN with
    | false => rw [(hforth hnan).1]
    | true =>
        cases hnan' : m'.isNaN with
        | true => rfl
        | false => rw [(hback hnan').1] at hnan; cases hnan
  · intro hnan
    obtain ⟨hnan', hle⟩ := hforth hnan
    exact hantisymm _ _ (hback hnan').2 hle

/-- What is foremost of two at a time is foremost of all. -/
theorem foremost_foldl (le : Int → Int → Prop) (hrefl : ∀ a, le a a)
    (htrans : ∀ a b c, le a b → le b c → le a c) {f : Binary64 → Binary64 → Binary64}
    (hf : ∀ x y, Foremost le (f x y) [x, y]) (x : Binary64) (values : List Binary64) :
    Foremost le (values.foldl f x) (x :: values) := by
  induction values generalizing x with
  | nil =>
      refine ⟨by simp, fun v hv hnan => ?_⟩
      obtain rfl := List.mem_singleton.mp hv
      exact ⟨hnan, hrefl _⟩
  | cons y values ih =>
      obtain ⟨hmem, hle⟩ := ih (f x y)
      obtain ⟨hpick, hfirst⟩ := hf x y
      refine ⟨?_, fun v hv hnan => ?_⟩
      · rw [List.foldl_cons]
        grind
      · have hfront : v ∈ [x, y] ∨ v ∈ values := by grind
        obtain hv | hv := hfront
        · obtain ⟨hnan', hle'⟩ := hfirst v hv hnan
          obtain ⟨hnan'', hle''⟩ := hle (f x y) List.mem_cons_self hnan'
          exact ⟨hnan'', htrans _ _ _ hle'' hle'⟩
        · exact hle v (List.mem_cons_of_mem _ hv) hnan

/-- A choice of two that ignores what is not a number. -/
theorem foremost_pair (le : Int → Int → Prop) (hrefl : ∀ a, le a a)
    {f : Binary64 → Binary64 → Binary64} (hleft : ∀ x y, x.isNaN → f x y = y)
    (hright : ∀ x y, x.isNaN = false → y.isNaN → f x y = x)
    (hboth : ∀ x y, x.isNaN = false → y.isNaN = false →
      f x y = x ∧ le x.rank y.rank ∨ f x y = y ∧ le y.rank x.rank) (x y : Binary64) :
    Foremost le (f x y) [x, y] := by
  cases hx : x.isNaN with
  | true =>
      rw [hleft x y hx]
      refine ⟨by simp, fun v hv hnan => ?_⟩
      obtain rfl | rfl := List.mem_pair.mp hv
      · exact absurd (hnan.symm.trans hx) Bool.false_ne_true
      · exact ⟨hnan, hrefl _⟩
  | false =>
      cases hy : y.isNaN with
      | true =>
          rw [hright x y hx hy]
          refine ⟨by simp, fun v hv hnan => ?_⟩
          obtain rfl | rfl := List.mem_pair.mp hv
          · exact ⟨hx, hrefl _⟩
          · exact absurd (hnan.symm.trans hy) Bool.false_ne_true
      | false =>
          obtain ⟨heq, hle⟩ | ⟨heq, hle⟩ := hboth x y hx hy
          · rw [heq]
            refine ⟨by simp, fun v hv _ => ?_⟩
            obtain rfl | rfl := List.mem_pair.mp hv
            · exact ⟨hx, hrefl _⟩
            · exact ⟨hx, hle⟩
          · rw [heq]
            refine ⟨by simp, fun v hv _ => ?_⟩
            obtain rfl | rfl := List.mem_pair.mp hv
            · exact ⟨hy, hle⟩
            · exact ⟨hy, hrefl _⟩

theorem lt_iff_rank {x y : Binary64} (hx : x.isNaN = false) (hy : y.isNaN = false) :
    x < y ↔ x.rank < y.rank := ⟨fun h => h.2.2, fun h => ⟨hx, hy, h⟩⟩

theorem foremost_min (x y : Binary64) : Foremost (· ≤ ·) (min x y) [x, y] := by
  have hmin : ∀ x y : Binary64, min x y =
    if x.isNaN then y else if y.isNaN then x else if y < x then y else x := fun _ _ => rfl
  refine foremost_pair (· ≤ ·) le_refl (fun x y hx => ?_) (fun x y hx hy => ?_)
    (fun x y hx hy => ?_) x y
  · simp [hmin, hx]
  · simp [hmin, hx, hy]
  · simp only [hmin, hx, hy, Bool.false_eq_true, if_false, lt_iff_rank hy hx]
    split
    · next hlt => exact Or.inr ⟨rfl, hlt.le⟩
    · next hle => exact Or.inl ⟨rfl, not_lt.mp hle⟩

theorem foremost_max (x y : Binary64) : Foremost (· ≥ ·) (max x y) [x, y] := by
  have hmax : ∀ x y : Binary64, max x y =
    if x.isNaN then y else if y.isNaN then x else if x < y then y else x := fun _ _ => rfl
  refine foremost_pair (· ≥ ·) le_refl (fun x y hx => ?_) (fun x y hx hy => ?_)
    (fun x y hx hy => ?_) x y
  · simp [hmax, hx]
  · simp [hmax, hx, hy]
  · simp only [hmax, hx, hy, Bool.false_eq_true, if_false, lt_iff_rank hx hy]
    split
    · next hlt => exact Or.inr ⟨rfl, hlt.le⟩
    · next hle => exact Or.inl ⟨rfl, not_lt.mp hle⟩

/-- The least number of a list, whatever order the list is in. -/
theorem alike_foldl_min {x x' : Binary64} {values values' : List Binary64}
    (hperm : (x :: values).Perm (x' :: values')) :
    Alike (values.foldl min x) (values'.foldl min x') :=
  foremost_alike (fun _ _ => le_antisymm) (fun _ => hperm.mem_iff)
    (foremost_foldl (· ≤ ·) le_refl (fun _ _ _ => le_trans) foremost_min x values)
    (foremost_foldl (· ≤ ·) le_refl (fun _ _ _ => le_trans) foremost_min x' values')

/-- The greatest number of a list, whatever order the list is in. -/
theorem alike_foldl_max {x x' : Binary64} {values values' : List Binary64}
    (hperm : (x :: values).Perm (x' :: values')) :
    Alike (values.foldl max x) (values'.foldl max x') :=
  foremost_alike (fun _ _ h h' => le_antisymm h' h) (fun _ => hperm.mem_iff)
    (foremost_foldl (· ≥ ·) le_refl (fun _ _ _ h h' => le_trans h' h) foremost_max _ _)
    (foremost_foldl (· ≥ ·) le_refl (fun _ _ _ h h' => le_trans h' h) foremost_max _ _)

theorem alike_min_comm (x y : Binary64) : Alike (min x y) (min y x) :=
  alike_foldl_min (List.Perm.swap y x [])

theorem alike_max_comm (x y : Binary64) : Alike (max x y) (max y x) :=
  alike_foldl_max (List.Perm.swap y x [])

/-- Above a positive number it does not matter which zero it is compared with. -/
theorem max_congr_of_pos {bound x x' : Binary64} (hbound : (0.0 : Binary64) < bound)
    (h : Alike x x') : max bound x = max bound x' := by
  have hmax : ∀ x y : Binary64, max x y =
    if x.isNaN then y else if y.isNaN then x else if x < y then y else x := fun _ _ => rfl
  simp only [hmax, hbound.2.1, h.1, h.lt_iff bound, Bool.false_eq_true, if_false]
  split
  · rfl
  split
  · next hlt =>
    have hlt' := (h.lt_iff bound).mpr hlt
    exact h.eq_of_pos ⟨hbound.1, hlt'.2.1, hbound.2.2.trans hlt'.2.2⟩
  · rfl

end Binary64
