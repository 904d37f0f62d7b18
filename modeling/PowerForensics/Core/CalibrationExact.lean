import Mathlib.Algebra.Order.Field.Rat
import Mathlib.Tactic.Linarith
import PowerForensics.Core.Calibration
import PowerForensics.System.LeastSquares

/-! # The calibration line in exact arithmetic

The fit is written once over the operations it uses. Read at binary64 numbers it is the fit that the
program runs; read at exact rationals it is the line of least squares, except that inputs or
references which hardly differ count as equal.
-/

namespace PowerForensics.Calibration

open Merging LeastSquares

/-! ## Both arithmetics -/

/-- The operations of a number type that the fit uses beside those of an integration. -/
class Arith (α : Type) extends Stats.Scalar α where
  ofCount : Nat → α
  sum : List α → α
  abs : α → α
  square : α → α
  clamp : α → α → α → α
  epsilon : α
  /-- The order by which points are sorted. -/
  before : α → α → Prop
  decBefore : DecidableRel before

attribute [instance] Arith.decBefore

instance : Arith Binary64 where
  ofCount := .ofNat
  sum := .sum
  abs := .abs
  square := .square
  clamp := .clamp
  epsilon := Calibration.epsilon
  before x y := x.totalRank ≤ y.totalRank
  decBefore _ _ := inferInstance

instance : Arith ℚ where
  ofCount n := n
  sum xs := xs.foldr (· + ·) 0
  abs x := |x|
  square x := x ^ 2
  clamp x lo hi := max lo (min x hi)
  epsilon := 1 / 2 ^ 52
  before x y := x ≤ y
  decBefore _ _ := inferInstance

structure Line (α : Type) where
  slope : α
  intercept : α
  r2 : α
  n : Nat

section Generic

variable {α : Type} [Arith α]

/-- The denominator of the slope. -/
def denominator (points : List (α × α)) : α :=
  Arith.ofCount points.length * Arith.sum ((points.map Prod.fst).map fun x => x * x) -
    Arith.sum (points.map Prod.fst) * Arith.sum (points.map Prod.fst)

def lineThrough (points : List (α × α)) : Line α :=
  let nf : α := Arith.ofCount points.length
  let sx := Arith.sum (points.map Prod.fst)
  let sy := Arith.sum (points.map Prod.snd)
  let sxy := Arith.sum (points.map fun p => p.1 * p.2)
  let slope := (nf * sxy - sx * sy) / denominator points
  let intercept := (sy - slope * sx) / nf
  let meanY := sy / nf
  let ssTot := Arith.sum ((points.map Prod.snd).map fun y => Arith.square (y - meanY))
  let ssRes := Arith.sum (points.map fun p => Arith.square (p.2 - (intercept + slope * p.1)))
  let r2 := if Arith.abs ssTot < Arith.epsilon then 0.0
    else Arith.clamp (1.0 - ssRes / ssTot) 0.0 1.0
  ⟨slope, intercept, r2, points.length⟩

def fitLine (points : List (α × α)) : Option (Line α) :=
  if points.length < 2 then none
  else if Arith.abs (denominator points) < Arith.epsilon then none
  else some (lineThrough points)

def sortPoints (points : List (α × α)) : List (α × α) :=
  points.insertionSort fun p q => Arith.before p.1 q.1

/-- The line that a calibration reports. -/
def calibrationLine (points : List (α × α)) : Option (Line α) :=
  if points.length < 2 then none else fitLine (sortPoints points)

end Generic

theorem denominator_eq (points : List Point) :
    denominator points = Calibration.spread (levels points) := by
  rw [denominator, Calibration.spread, levels, List.length_map]
  rfl

/-- The operations of binary64 numbers are their own. -/
theorem ofCount_binary64 (n : Nat) : (Arith.ofCount n : Binary64) = .ofNat n := rfl

theorem sum_binary64 (xs : List Binary64) : Arith.sum xs = Binary64.sum xs := rfl

theorem square_binary64 (x : Binary64) : Arith.square x = x.square := rfl

theorem clamp_binary64 (x lo hi : Binary64) : Arith.clamp x lo hi = x.clamp lo hi := rfl

theorem abs_lt_epsilon (x : Binary64) :
    Arith.abs x < Arith.epsilon ↔ x.abs < Calibration.epsilon := Iff.rfl

/-- At binary64 numbers it is the fit of the program. -/
theorem fitLinear_eq (points : List Point) : fitLinear points =
    (fitLine points).map fun line => ⟨line.slope, line.intercept, line.r2, line.n⟩ := by
  rw [fitLinear, fitLine, lineThrough, denominator_eq]
  split
  · rfl
  · dsimp only
    split
    next h => rw [if_pos ((abs_lt_epsilon _).mpr h), Option.map_none]
    next h =>
      rw [if_neg (mt (abs_lt_epsilon _).mp h), Option.map_some]
      simp only [ofCount_binary64, sum_binary64, square_binary64, clamp_binary64, abs_lt_epsilon]
      rfl

/-- The slope and the intercept of a calibration are those of its line. -/
theorem fitDisplayCalibration_line (points : List Point) :
    (fitDisplayCalibration points).map (fun out => (out.slope, out.intercept)) =
      (calibrationLine points).map fun line => (line.slope, line.intercept) := by
  have hline := fitLinear_eq (byLevel points)
  rw [fitDisplayCalibration, calibrationLine]
  split
  · rfl
  · dsimp only
    change _ = (fitLine (byLevel points)).map _
    cases hfit : fitLine (byLevel points) with
    | none =>
        rw [hfit] at hline
        rw [hline]
        rfl
    | some line =>
        rw [hfit] at hline
        rw [hline]
        rfl

/-- Calibrations of points that agree in the order of those with one input are the same. -/
theorem fitDisplayCalibration_congr {points points' : List Point}
    (hlength : points.length = points'.length) (hsame : ∀ k,
      points.filter (fun p => p.1.totalRank = k) = points'.filter fun p => p.1.totalRank = k) :
    fitDisplayCalibration points = fitDisplayCalibration points' := by
  have hsorted : byLevel points = byLevel points' :=
    stableSort_congr (fun p : Point => p.1.totalRank) hsame
  rw [fitDisplayCalibration, fitDisplayCalibration, hlength, hsorted]

/-! ## Exact arithmetic -/

section Exact

variable {points : List (ℚ × ℚ)}

/-- The mean of the references. -/
def meanReference (points : List (ℚ × ℚ)) : ℚ := sumOf Prod.snd points / points.length

theorem sum_rat (f : ℚ × ℚ → ℚ) (points : List (ℚ × ℚ)) :
    Arith.sum (points.map f) = sumOf f points := rfl

theorem sum_rat_map (f : ℚ × ℚ → ℚ) (g : ℚ → ℚ) (points : List (ℚ × ℚ)) :
    Arith.sum ((points.map f).map g) = sumOf (fun p => g (f p)) points := by
  rw [List.map_map]
  rfl

theorem denominator_rat (points : List (ℚ × ℚ)) :
    denominator points = LeastSquares.spread points := by
  rw [denominator, sum_rat_map]
  rfl

/-- The line through points with different inputs satisfies the normal equations. -/
theorem normal_lineThrough (hspread : LeastSquares.spread points ≠ 0) :
    Normal points (lineThrough points).slope (lineThrough points).intercept := by
  have hpoints : points ≠ [] := by
    rintro rfl
    exact hspread (by simp [LeastSquares.spread])
  have hpos : (points.length : ℚ) ≠ 0 := (length_pos hpoints).ne'
  have hslope : (lineThrough points).slope = (points.length * sumOf (fun p => p.1 * p.2) points -
      sumOf Prod.fst points * sumOf Prod.snd points) / LeastSquares.spread points := by
    rw [← denominator_rat]
    rfl
  have hintercept : (lineThrough points).intercept = (sumOf Prod.snd points -
      (lineThrough points).slope * sumOf Prod.fst points) / points.length := rfl
  constructor
  · rw [hintercept, mul_div_cancel₀ _ hpos]
  · rw [hslope, div_mul_cancel₀ _ hspread]

/-- A line of which no other is better, with the share of the deviation that it explains. -/
structure Fitted (points : List (ℚ × ℚ)) (line : Line ℚ) : Prop where
  least : ∀ slope intercept,
    squares points line.slope line.intercept ≤ squares points slope intercept
  bounded : squares points line.slope line.intercept ≤ deviation points (meanReference points)
  r2 : line.r2 = if deviation points (meanReference points) < Arith.epsilon then 0
    else 1 - squares points line.slope line.intercept / deviation points (meanReference points)

theorem epsilon_pos : (0 : ℚ) < Arith.epsilon := by
  change (0 : ℚ) < 1 / 2 ^ 52
  norm_num

/-- A line below another with a part of its squares explains a share. -/
theorem clamp_share {part whole : ℚ} (hpart : 0 ≤ part) (hle : part ≤ whole) (hwhole : 0 < whole) :
    Arith.clamp (1.0 - part / whole) (0.0 : ℚ) 1.0 = 1 - part / whole := by
  have hshare : 0 ≤ part / whole := div_nonneg hpart hwhole.le
  have hone : part / whole ≤ 1 := (div_le_one hwhole).mpr hle
  change max (0.0 : ℚ) (min (1.0 - part / whole) 1.0) = _
  norm_num
  rw [min_eq_left (by linarith), max_eq_right (by linarith)]

theorem fitted_lineThrough (hspread : LeastSquares.spread points ≠ 0) :
    Fitted points (lineThrough points) := by
  have hnormal := normal_lineThrough hspread
  have hbounded : squares points (lineThrough points).slope (lineThrough points).intercept ≤
      deviation points (meanReference points) := by
    rw [deviation_eq]
    exact hnormal.least _ _
  refine ⟨hnormal.least, hbounded, ?_⟩
  have hnonneg : 0 ≤ deviation points (meanReference points) :=
    (squares_nonneg points _ _).trans hbounded
  have hr2 : (lineThrough points).r2 =
      if |deviation points (meanReference points)| < Arith.epsilon then (0.0 : ℚ)
      else Arith.clamp (1.0 - squares points (lineThrough points).slope
        (lineThrough points).intercept / deviation points (meanReference points)) 0.0 1.0 := by
    rw [deviation, ← sum_rat_map Prod.snd fun y => (y - meanReference points) ^ 2]
    rfl
  rw [hr2, abs_of_nonneg hnonneg]
  split
  · norm_num
  next hlarge =>
    exact clamp_share (squares_nonneg points _ _) hbounded
      (epsilon_pos.trans_le (not_lt.mp hlarge))

theorem fitLine_eq_none : fitLine points = none ↔
    points.length < 2 ∨ LeastSquares.spread points < Arith.epsilon := by
  have habs : Arith.abs (denominator points) = LeastSquares.spread points := by
    rw [denominator_rat]
    exact abs_of_nonneg (spread_nonneg points)
  rw [fitLine, habs]
  split
  next hfew => simp [hfew]
  next hmany =>
    split
    next hsmall => simp [hsmall]
    next hlarge => simp [hmany, hlarge]

theorem fitLine_eq_some {line : Line ℚ} (h : fitLine points = some line) :
    lineThrough points = line ∧ LeastSquares.spread points ≠ 0 := by
  have hsome : ¬fitLine points = none := by
    rw [h]
    exact Option.some_ne_none _
  rw [fitLine_eq_none, not_or] at hsome
  constructor
  · rw [fitLine] at h
    split at h
    · cases h
    split at h
    · cases h
    · exact Option.some.inj h
  · intro hzero
    rw [hzero] at hsome
    exact hsome.2 epsilon_pos

/-- The sums do not depend on the order of the points. -/
theorem fitLine_perm {points' : List (ℚ × ℚ)} (hperm : points.Perm points') :
    fitLine points = fitLine points' := by
  have hsum := fun f : ℚ × ℚ → ℚ => sumOf_perm f hperm
  have hdenominator : denominator points = denominator points' := by
    rw [denominator_rat, denominator_rat, LeastSquares.spread, LeastSquares.spread, hsum, hsum,
      hperm.length_eq]
  have hline : lineThrough points = lineThrough points' := by
    simp only [lineThrough, sum_rat, sum_rat_map, hdenominator, hsum, hperm.length_eq]
  rw [fitLine, fitLine, hdenominator, hline, hperm.length_eq]

theorem calibrationLine_perm {points' : List (ℚ × ℚ)} (hperm : points.Perm points') :
    calibrationLine points = calibrationLine points' := by
  have hsorted : (sortPoints points).Perm (sortPoints points') :=
    (List.perm_insertionSort _ points).trans
      (hperm.trans (List.perm_insertionSort _ points').symm)
  rw [calibrationLine, calibrationLine, hperm.length_eq, fitLine_perm hsorted]

end Exact

/-- The line is that of least squares, and there is one, up to inputs and references that hardly
differ. The order of points with one input matters only to rounding. -/
theorem calibration_line_spec :
    (∀ points : List (ℚ × ℚ),
      (fitLine points = none ↔ points.length < 2 ∨ LeastSquares.spread points < Arith.epsilon) ∧
      (LeastSquares.spread points = 0 ↔ ∀ p ∈ points, ∀ q ∈ points, p.1 = q.1) ∧
      (∀ line, fitLine points = some line → Fitted points line) ∧
      ∀ points', points.Perm points' → calibrationLine points = calibrationLine points') ∧
    ∀ points points' : List Point, points.Perm points' →
      (∀ k, points.filter (fun p => p.1.totalRank = k) =
        points'.filter fun p => p.1.totalRank = k) →
      fitDisplayCalibration points = fitDisplayCalibration points' := by
  constructor
  · intro points
    refine ⟨fitLine_eq_none, spread_eq_zero_iff points, fun line hline => ?_,
      fun points' hperm => calibrationLine_perm hperm⟩
    obtain ⟨rfl, hspread⟩ := fitLine_eq_some hline
    exact fitted_lineThrough hspread
  · intro points points' hperm hsame
    exact fitDisplayCalibration_congr hperm.length_eq hsame

/-- Two inputs that are a millionth of a thousandth apart. -/
def closeInputs : List (ℚ × ℚ) := [(0, 0), (1 / 10 ^ 9, 1)]

/-- Two references that are a millionth of a thousandth apart. -/
def closeReferences : List (ℚ × ℚ) := [(0, 0), (1, 1 / 10 ^ 9)]

/-- Three references of one input in ascending order. -/
def ascendingTies : List Point := [(0.0, 0.1), (0.0, 0.2), (0.0, 0.3), (1.0, 0.0)]

def descendingTies : List Point := [(0.0, 0.3), (0.0, 0.2), (0.0, 0.1), (1.0, 0.0)]

/-- Distinct inputs without a line, distinct references without a share, and a slope that depends
on the order of the points. -/
theorem calibration_line_exceptions :
    (¬∀ points : List (ℚ × ℚ),
      fitLine points = none ↔ ∀ p ∈ points, ∀ q ∈ points, p.1 = q.1) ∧
    (¬∀ (points : List (ℚ × ℚ)) (line : Line ℚ), fitLine points = some line →
      (∃ p ∈ points, ∃ q ∈ points, p.2 ≠ q.2) → line.r2 =
        1 - squares points line.slope line.intercept / deviation points (meanReference points)) ∧
    ¬∀ points points' : List Point, points.Perm points' →
      (fitDisplayCalibration points).map FitOutcome.slope =
        (fitDisplayCalibration points').map FitOutcome.slope := by
  refine ⟨fun h => ?_, fun h => ?_, fun h => ?_⟩
  · have hnone : fitLine closeInputs = none := fitLine_eq_none.mpr (Or.inr (by decide +kernel))
    have hsame := (h closeInputs).mp hnone (0, 0) List.mem_cons_self (1 / 10 ^ 9, 1)
      (List.mem_cons_of_mem _ List.mem_cons_self)
    norm_num at hsame
  · have hline : fitLine closeReferences = some (lineThrough closeReferences) := by
      rw [fitLine, if_neg (by decide), if_neg (by decide +kernel)]
    have hshare := h closeReferences _ hline
      ⟨(0, 0), List.mem_cons_self, (1, 1 / 10 ^ 9), List.mem_cons_of_mem _ List.mem_cons_self,
        by norm_num⟩
    exact absurd hshare (by decide +kernel)
  · have hperm : ascendingTies.Perm descendingTies :=
      (List.Perm.swap _ _ _).trans
        (((List.Perm.swap _ _ _).cons _).trans (List.Perm.swap _ _ _))
    exact absurd (h ascendingTies descendingTies hperm) (by decide +kernel)

end PowerForensics.Calibration
