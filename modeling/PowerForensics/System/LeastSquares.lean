import Mathlib.Algebra.Order.Field.Basic
import Mathlib.Tactic.FieldSimp
import Mathlib.Tactic.LinearCombination
import Mathlib.Tactic.Ring

/-! # Lines of least squares

The squared distances of points from a line depend on the points through six sums. For the line that
satisfies the normal equations they are least, which completing the square shows. The spread of the
inputs is the denominator of its slope, and is zero exactly if all inputs are equal.
-/

namespace LeastSquares

variable {K : Type} [Field K]

/-! ## Sums over points -/

section Sums

variable {α : Type}

def sumOf (f : α → K) (xs : List α) : K := (xs.map f).foldr (· + ·) 0

@[simp] theorem sumOf_nil (f : α → K) : sumOf f [] = 0 := rfl

@[simp] theorem sumOf_cons (f : α → K) (x : α) (xs : List α) :
    sumOf f (x :: xs) = f x + sumOf f xs := rfl

theorem sumOf_perm (f : α → K) {xs ys : List α} (h : xs.Perm ys) : sumOf f xs = sumOf f ys := by
  induction h with
  | nil => rfl
  | cons x _ ih => rw [sumOf_cons, sumOf_cons, ih]
  | swap x y xs =>
      rw [sumOf_cons, sumOf_cons, sumOf_cons, sumOf_cons]
      ring
  | trans _ _ ih ih' => exact ih.trans ih'

variable [LinearOrder K] [IsStrictOrderedRing K]

theorem sumOf_nonneg {f : α → K} {xs : List α} (hf : ∀ x ∈ xs, 0 ≤ f x) : 0 ≤ sumOf f xs := by
  induction xs with
  | nil => exact le_refl _
  | cons x xs ih =>
      obtain ⟨hx, hxs⟩ := List.forall_mem_cons.mp hf
      exact add_nonneg hx (ih hxs)

/-- Quantities that are not negative add up to zero only if all are zero. -/
theorem eq_zero_of_sumOf {f : α → K} {xs : List α} (hf : ∀ x ∈ xs, 0 ≤ f x)
    (hzero : sumOf f xs = 0) : ∀ x ∈ xs, f x = 0 := by
  induction xs with
  | nil => exact List.forall_mem_nil _
  | cons x xs ih =>
      obtain ⟨hx, hxs⟩ := List.forall_mem_cons.mp hf
      obtain ⟨hhead, htail⟩ := (add_eq_zero_iff_of_nonneg hx (sumOf_nonneg hxs)).mp hzero
      exact List.forall_mem_cons.mpr ⟨hhead, ih hxs htail⟩

end Sums

/-! ## The spread of the inputs -/

section Spread

variable (points : List (K × K))

/-- The number of points times the squares of the inputs, less the square of their sum. -/
def spread : K :=
  points.length * sumOf (fun p => p.1 * p.1) points - sumOf Prod.fst points * sumOf Prod.fst points

/-- Squares of the distances of the inputs from a number. -/
theorem sumOf_centered (m : K) : sumOf (fun p => (p.1 - m) ^ 2) points =
    sumOf (fun p => p.1 * p.1) points - 2 * m * sumOf Prod.fst points + points.length * m ^ 2 := by
  induction points with
  | nil => simp
  | cons p points ih =>
      simp only [sumOf_cons, ih, List.length_cons, Nat.cast_add, Nat.cast_one]
      ring

variable [LinearOrder K] [IsStrictOrderedRing K] {points}

theorem length_pos (hpoints : points ≠ []) : 0 < (points.length : K) :=
  Nat.cast_pos.mpr (List.length_pos_of_ne_nil hpoints)

/-- The spread is made of the squared distances of the inputs from their mean. -/
theorem spread_eq (hpoints : points ≠ []) : spread points =
    points.length * sumOf (fun p => (p.1 - sumOf Prod.fst points / points.length) ^ 2) points := by
  have hpos := length_pos hpoints
  rw [sumOf_centered, spread]
  field_simp
  ring

theorem spread_nonneg (points : List (K × K)) : 0 ≤ spread points := by
  by_cases hpoints : points = []
  · rw [hpoints]
    simp [spread]
  · rw [spread_eq hpoints]
    exact mul_nonneg (length_pos hpoints).le (sumOf_nonneg fun p _ => sq_nonneg _)

/-- There is no spread exactly if all inputs are equal. -/
theorem spread_eq_zero_iff (points : List (K × K)) :
    spread points = 0 ↔ ∀ p ∈ points, ∀ q ∈ points, p.1 = q.1 := by
  by_cases hpoints : points = []
  · rw [hpoints]
    simp [spread]
  have hpos := length_pos hpoints
  constructor
  · intro hzero
    rw [spread_eq hpoints] at hzero
    have hsum := (mul_eq_zero.mp hzero).resolve_left hpos.ne'
    have hmean := eq_zero_of_sumOf (fun p _ => sq_nonneg _) hsum
    have hall : ∀ p ∈ points, p.1 = sumOf Prod.fst points / points.length :=
      fun p hp => sub_eq_zero.mp (pow_eq_zero_iff two_ne_zero |>.mp (hmean p hp))
    exact fun p hp q hq => (hall p hp).trans (hall q hq).symm
  · intro hall
    obtain ⟨p, hp⟩ := List.exists_mem_of_ne_nil _ hpoints
    have hconst : ∀ qs : List (K × K), (∀ q ∈ qs, q.1 = p.1) →
        sumOf Prod.fst qs = qs.length * p.1 ∧
          sumOf (fun q => q.1 * q.1) qs = qs.length * (p.1 * p.1) := by
      intro qs
      induction qs with
      | nil => simp
      | cons q qs ih =>
          intro hqs
          obtain ⟨hq, hqs⟩ := List.forall_mem_cons.mp hqs
          obtain ⟨hsum, hsquares⟩ := ih hqs
          rw [sumOf_cons, sumOf_cons, hsum, hsquares, hq, List.length_cons, Nat.cast_add,
            Nat.cast_one]
          constructor
          · ring
          · ring
    obtain ⟨hsum, hsquares⟩ := hconst points fun q hq => hall q hq p hp
    rw [spread, hsum, hsquares]
    ring

end Spread

/-! ## Squared distances from a line -/

section Lines

variable (points : List (K × K))

/-- The squared distances of the points from a line. -/
def squares (slope intercept : K) : K :=
  sumOf (fun p => (p.2 - (intercept + slope * p.1)) ^ 2) points

/-- The squared distances of the references from a number. -/
def deviation (m : K) : K := sumOf (fun p => (p.2 - m) ^ 2) points

/-- The squared distances depend on six sums. -/
theorem squares_eq (slope intercept : K) : squares points slope intercept =
    sumOf (fun p => p.2 ^ 2) points - 2 * intercept * sumOf Prod.snd points
      - 2 * slope * sumOf (fun p => p.1 * p.2) points + points.length * intercept ^ 2
      + 2 * slope * intercept * sumOf Prod.fst points
      + slope ^ 2 * sumOf (fun p => p.1 * p.1) points := by
  rw [squares]
  induction points with
  | nil => simp
  | cons p points ih =>
      simp only [sumOf_cons, ih, List.length_cons, Nat.cast_add, Nat.cast_one]
      ring

theorem deviation_eq (m : K) : deviation points m = squares points 0 m := by
  simp only [deviation, squares, zero_mul, add_zero]

/-- The two equations that a line of least squares satisfies. -/
structure Normal (slope intercept : K) : Prop where
  level : points.length * intercept = sumOf Prod.snd points - slope * sumOf Prod.fst points
  slope : slope * spread points =
    points.length * sumOf (fun p => p.1 * p.2) points - sumOf Prod.fst points * sumOf Prod.snd points

variable {points} {slope intercept : K}

/-- What another line has more, times the number of points, is a sum of squares. -/
theorem Normal.squares_sub (h : Normal points slope intercept) (slope' intercept' : K) :
    points.length * (squares points slope' intercept' - squares points slope intercept) =
      (points.length * (intercept' - intercept) + sumOf Prod.fst points * (slope' - slope)) ^ 2
        + spread points * (slope' - slope) ^ 2 := by
  obtain ⟨hlevel, hslope⟩ := h
  rw [spread] at hslope
  rw [squares_eq, squares_eq, spread]
  linear_combination (2 * points.length * (intercept' - intercept)
    + 2 * sumOf Prod.fst points * (slope' - slope)) * hlevel + 2 * (slope' - slope) * hslope

variable [LinearOrder K] [IsStrictOrderedRing K]

/-- No line has less than one that satisfies the normal equations. -/
theorem Normal.least (h : Normal points slope intercept) (slope' intercept' : K) :
    squares points slope intercept ≤ squares points slope' intercept' := by
  by_cases hpoints : points = []
  · rw [hpoints]
    exact le_refl _
  have hpos := length_pos hpoints
  have hsub := h.squares_sub slope' intercept'
  have hnonneg : 0 ≤ (points.length : K) *
      (squares points slope' intercept' - squares points slope intercept) := by
    rw [hsub]
    exact add_nonneg (sq_nonneg _) (mul_nonneg (spread_nonneg points) (sq_nonneg _))
  exact sub_nonneg.mp (nonneg_of_mul_nonneg_right hnonneg hpos)

theorem squares_nonneg (points : List (K × K)) (slope intercept : K) :
    0 ≤ squares points slope intercept := sumOf_nonneg fun _ _ => sq_nonneg _

end Lines

end LeastSquares
