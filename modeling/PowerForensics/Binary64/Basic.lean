import Mathlib.Data.Nat.Log
import Mathlib.Data.BitVec
import Mathlib.Algebra.Order.Ring.Nat
import Mathlib.Tactic.Ring
import Mathlib.Tactic.Linarith

/-! # Binary64 numbers

A binary64 number is kept as its bit pattern. Arithmetic is exact integer
arithmetic in units of the smallest subnormal, followed by one rounding to the
nearest pattern, ties to even. The magnitude of a pattern (everything but its
sign bit) is monotone in the value it stands for, so rounding, comparison, and
overflow are all stated on magnitudes.
-/

/-- A binary64 number, kept as its bit pattern. -/
structure Binary64 where
  bits : BitVec 64
  deriving DecidableEq, Repr

namespace Binary64

/-! ## Fields of a pattern -/

/-- The sign bit. -/
def negative (x : Binary64) : Bool := 2 ^ 63 ≤ x.bits.toNat

/-- Everything but the sign bit. -/
def magnitude (x : Binary64) : Nat := x.bits.toNat % 2 ^ 63

/-- The magnitude of infinity; larger magnitudes are not numbers. -/
def infMagnitude : Nat := 2047 * 2 ^ 52

def isNaN (x : Binary64) : Bool := infMagnitude < x.magnitude
def isInfinite (x : Binary64) : Bool := x.magnitude = infMagnitude
def isFinite (x : Binary64) : Bool := x.magnitude < infMagnitude

/-- The pattern with a given sign and magnitude. -/
def ofMagnitude (neg : Bool) (mag : Nat) : Binary64 :=
  ⟨BitVec.ofNat 64 ((if neg then 2 ^ 63 else 0) + mag)⟩

/-- The value of a finite magnitude in units of the smallest subnormal. -/
def units (mag : Nat) : Nat :=
  if mag < 2 ^ 52 then mag
  else (2 ^ 52 + mag % 2 ^ 52) * 2 ^ (mag / 2 ^ 52 - 1)

/-- The smallest subnormal is two to the minus this. -/
def unitExponent : Nat := 1074

/-- The number of units in one. -/
def one : Nat := 2 ^ unitExponent

/-- The signed value of a finite pattern in units. -/
def signedUnits (x : Binary64) : Int :=
  if x.negative then -(units x.magnitude : Int) else units x.magnitude

/-! ## Rounding -/

/-- The integer nearest to `n / d`, ties to even. -/
def roundHalfEven (n d : Nat) : Nat :=
  if 2 * (n % d) < d then n / d
  else if d < 2 * (n % d) then n / d + 1
  else n / d + n / d % 2

/-- The magnitude nearest to `n / d` units, ties to even, saturating at infinity. -/
def roundMagnitude (n d : Nat) : Nat :=
  let e := (n / d).log2 - 52
  min (e * 2 ^ 52 + roundHalfEven n (d * 2 ^ e)) infMagnitude

/-- The pattern nearest to `± n / d` units. -/
def ofUnits (neg : Bool) (n d : Nat) : Binary64 := ofMagnitude neg (roundMagnitude n d)

def ofNat (n : Nat) : Binary64 := ofUnits false (n * one) 1

/-- The pattern nearest to `± m * 10 ^ e`. -/
def ofDecimal (neg : Bool) (m : Nat) (e : Int) : Binary64 :=
  if 0 ≤ e then ofUnits neg (m * 10 ^ e.toNat * one) 1
  else ofUnits neg (m * one) (10 ^ (-e).toNat)

instance (n : Nat) : OfNat Binary64 n := ⟨ofNat n⟩
instance : NatCast Binary64 := ⟨ofNat⟩
instance : OfScientific Binary64 where
  ofScientific m s e := ofDecimal false m (if s then -e else e)
instance : Inhabited Binary64 := ⟨0⟩

/-! ## Arithmetic and comparison -/

def nan : Binary64 := ofMagnitude false (infMagnitude + 2 ^ 51)
def infinity (neg : Bool) : Binary64 := ofMagnitude neg infMagnitude
def zero (neg : Bool) : Binary64 := ofMagnitude neg 0

def neg (x : Binary64) : Binary64 := ofMagnitude (!x.negative) x.magnitude

def add (x y : Binary64) : Binary64 :=
  if x.isNaN || y.isNaN then nan
  else if x.isInfinite then
    if y.isInfinite && x.negative != y.negative then nan else x
  else if y.isInfinite then y
  else
    let s := x.signedUnits + y.signedUnits
    if s = 0 then zero (x.negative && y.negative)
    else ofUnits (s < 0) s.natAbs 1

def sub (x y : Binary64) : Binary64 := add x (neg y)

def mul (x y : Binary64) : Binary64 :=
  let s := x.negative != y.negative
  if x.isNaN || y.isNaN then nan
  else if x.isInfinite || y.isInfinite then
    if x.magnitude = 0 || y.magnitude = 0 then nan else infinity s
  else ofUnits s (units x.magnitude * units y.magnitude) one

def div (x y : Binary64) : Binary64 :=
  let s := x.negative != y.negative
  if x.isNaN || y.isNaN then nan
  else if x.isInfinite then if y.isInfinite then nan else infinity s
  else if y.isInfinite then zero s
  else if y.magnitude = 0 then if x.magnitude = 0 then nan else infinity s
  else ofUnits s (units x.magnitude * one) (units y.magnitude)

instance : Neg Binary64 := ⟨neg⟩
instance : Add Binary64 := ⟨add⟩
instance : Sub Binary64 := ⟨sub⟩
instance : Mul Binary64 := ⟨mul⟩
instance : Div Binary64 := ⟨div⟩

/-- The place of a pattern that is a number in the order of values; both zeros
have the same place. -/
def rank (x : Binary64) : Int := if x.negative then -(x.magnitude : Int) else x.magnitude

/-- The place of a pattern in the total order, where the negative zero is below
the positive one and patterns that are not numbers lie outside the infinities. -/
def totalRank (x : Binary64) : Int :=
  if x.negative then -(x.magnitude : Int) - 1 else x.magnitude

/-- The total order of all patterns. -/
def totalCmp (x y : Binary64) : Ordering := compare x.totalRank y.totalRank

instance : LT Binary64 := ⟨fun x y => x.isNaN = false ∧ y.isNaN = false ∧ x.rank < y.rank⟩
instance : LE Binary64 := ⟨fun x y => x.isNaN = false ∧ y.isNaN = false ∧ x.rank ≤ y.rank⟩

instance : DecidableLT Binary64 := fun x y =>
  inferInstanceAs (Decidable (x.isNaN = false ∧ y.isNaN = false ∧ x.rank < y.rank))
instance : DecidableLE Binary64 := fun x y =>
  inferInstanceAs (Decidable (x.isNaN = false ∧ y.isNaN = false ∧ x.rank ≤ y.rank))

/-- The larger number; an argument that is not a number is ignored. -/
instance : Max Binary64 where
  max x y := if x.isNaN then y else if y.isNaN then x else if x < y then y else x

/-- Truncation toward zero into an unsigned integer of `w` bits. It saturates at
both ends and sends patterns that are not numbers to zero. -/
def toUnsigned (w : Nat) (x : Binary64) : Nat :=
  if x.isNaN || x.negative then 0
  else if x.isInfinite then 2 ^ w - 1
  else min (units x.magnitude / one) (2 ^ w - 1)

/-- The integer next to the magnitude towards zero, in units. -/
def unitsBelow (mag : Nat) : Nat := units mag / one * one

/-- The integer next to the magnitude away from zero, in units. -/
def unitsAbove (mag : Nat) : Nat := (units mag + one - 1) / one * one

def floor (x : Binary64) : Binary64 :=
  if x.isFinite then
    ofUnits x.negative (if x.negative then unitsAbove x.magnitude else unitsBelow x.magnitude) 1
  else x

def ceil (x : Binary64) : Binary64 :=
  if x.isFinite then
    ofUnits x.negative (if x.negative then unitsBelow x.magnitude else unitsAbove x.magnitude) 1
  else x

/-! ## Patterns and their fields -/

theorem magnitude_lt (x : Binary64) : x.magnitude < 2 ^ 63 := Nat.mod_lt _ (by decide)

theorem ofMagnitude_eta (x : Binary64) : ofMagnitude x.negative x.magnitude = x := by
  rcases x with ⟨bits⟩
  have hlt := bits.isLt
  simp only [ofMagnitude, negative, magnitude, Binary64.mk.injEq]
  apply BitVec.eq_of_toNat_eq
  by_cases hneg : 2 ^ 63 ≤ bits.toNat
  · simp only [hneg, decide_true, if_true, BitVec.toNat_ofNat]
    omega
  · simp only [hneg, decide_false, Bool.false_eq_true, if_false, BitVec.toNat_ofNat]
    omega

theorem negative_ofMagnitude (neg : Bool) {mag : Nat} (hmag : mag < 2 ^ 63) :
    (ofMagnitude neg mag).negative = neg := by
  cases neg <;> simp [ofMagnitude, negative] <;> omega

theorem magnitude_ofMagnitude (neg : Bool) {mag : Nat} (hmag : mag < 2 ^ 63) :
    (ofMagnitude neg mag).magnitude = mag := by
  cases neg <;> simp [ofMagnitude, magnitude] <;> omega

theorem ext_fields {x y : Binary64} (hneg : x.negative = y.negative)
    (hmag : x.magnitude = y.magnitude) : x = y := by
  rw [← ofMagnitude_eta x, ← ofMagnitude_eta y, hneg, hmag]

theorem roundMagnitude_le (n d : Nat) : roundMagnitude n d ≤ infMagnitude := min_le_right _ _

theorem roundMagnitude_lt (n d : Nat) : roundMagnitude n d < 2 ^ 63 :=
  (roundMagnitude_le n d).trans_lt (by decide)

@[simp] theorem negative_ofUnits (neg : Bool) (n d : Nat) : (ofUnits neg n d).negative = neg :=
  negative_ofMagnitude neg (roundMagnitude_lt n d)

@[simp] theorem magnitude_ofUnits (neg : Bool) (n d : Nat) :
    (ofUnits neg n d).magnitude = roundMagnitude n d :=
  magnitude_ofMagnitude neg (roundMagnitude_lt n d)

@[simp] theorem isNaN_ofUnits (neg : Bool) (n d : Nat) : (ofUnits neg n d).isNaN = false := by
  have hle := roundMagnitude_le n d
  simp only [isNaN, magnitude_ofUnits, decide_eq_false_iff_not]
  omega

/-! ## Rounding is exact on representable values -/

/-- Scaling numerator and denominator together does not change the nearest integer. -/
theorem roundHalfEven_mul_right (n d c : Nat) (hc : 0 < c) :
    roundHalfEven (n * c) (d * c) = roundHalfEven n d := by
  have hmod : n * c % (d * c) = n % d * c := Nat.mul_mod_mul_right c n d
  have hdiv : n * c / (d * c) = n / d := Nat.mul_div_mul_right n d hc
  have hlt : 2 * (n % d * c) < d * c ↔ 2 * (n % d) < d := by
    rw [← Nat.mul_assoc]
    exact Nat.mul_lt_mul_right hc
  have hgt : d * c < 2 * (n % d * c) ↔ d < 2 * (n % d) := by
    rw [← Nat.mul_assoc]
    exact Nat.mul_lt_mul_right hc
  simp only [roundHalfEven, hmod, hdiv, hlt, hgt]

/-- Rounding depends on the quotient only, not on how it is written. -/
theorem roundMagnitude_mul_right (n d c : Nat) (hc : 0 < c) :
    roundMagnitude (n * c) (d * c) = roundMagnitude n d := by
  have hscale : ∀ e, d * c * 2 ^ e = d * 2 ^ e * c := fun e => Nat.mul_right_comm d c (2 ^ e)
  simp only [roundMagnitude, Nat.mul_div_mul_right n d hc, hscale,
    roundHalfEven_mul_right n _ c hc]

/-- Two quotients that are equal round to the same magnitude. -/
theorem roundMagnitude_congr {n d n' d' : Nat} (hd : 0 < d) (hd' : 0 < d')
    (heq : n * d' = n' * d) : roundMagnitude n d = roundMagnitude n' d' := by
  rw [← roundMagnitude_mul_right n d d' hd', heq, Nat.mul_comm d d',
    roundMagnitude_mul_right n' d' d hd]

theorem roundHalfEven_of_dvd (m d : Nat) (hd : 0 < d) : roundHalfEven (m * d) d = m := by
  simp [roundHalfEven, hd]

private theorem units_log2 {mag : Nat} (hmag : 2 ^ 52 ≤ mag) :
    (units mag).log2 = mag / 2 ^ 52 - 1 + 52 := by
  have hfrac : mag % 2 ^ 52 < 2 ^ 52 := Nat.mod_lt _ (by decide)
  simp only [units, Nat.not_lt.mpr hmag, if_false]
  rw [Nat.log2_eq_iff (by positivity)]
  constructor
  · rw [Nat.pow_add, Nat.mul_comm]
    exact Nat.mul_le_mul_right _ (Nat.le_add_right _ _)
  · rw [show mag / 2 ^ 52 - 1 + 52 + 1 = 53 + (mag / 2 ^ 52 - 1) by omega, Nat.pow_add]
    exact Nat.mul_lt_mul_of_pos_right (by omega) (by positivity)

/-- A value that some finite pattern has is rounded to that pattern. -/
theorem roundMagnitude_units {mag : Nat} (hmag : mag ≤ infMagnitude) :
    roundMagnitude (units mag) 1 = mag := by
  by_cases hsub : mag < 2 ^ 52
  · have hlog : (units mag).log2 - 52 = 0 := by
      simp only [units, hsub, if_true]
      rcases Nat.eq_zero_or_pos mag with rfl | hpos
      · simp
      · have := (Nat.log2_lt hpos.ne').mpr hsub
        omega
    have hround : roundHalfEven (units mag) 1 = mag := by
      have hunits : units mag = mag := by simp only [units, hsub, if_true]
      rw [hunits]
      simpa using roundHalfEven_of_dvd mag 1 Nat.one_pos
    simp only [roundMagnitude, Nat.div_one, hlog, Nat.zero_mul, Nat.zero_add, Nat.one_mul,
      Nat.pow_zero, hround]
    exact min_eq_left hmag
  · have hlog : (units mag).log2 - 52 = mag / 2 ^ 52 - 1 := by
      rw [units_log2 (Nat.not_lt.mp hsub)]
      omega
    have hround : roundHalfEven (units mag) (1 * 2 ^ (mag / 2 ^ 52 - 1)) =
        2 ^ 52 + mag % 2 ^ 52 := by
      simp only [units, hsub, if_false, Nat.one_mul]
      exact roundHalfEven_of_dvd _ _ (by positivity)
    have hsplit : (mag / 2 ^ 52 - 1) * 2 ^ 52 + (2 ^ 52 + mag % 2 ^ 52) = mag := by omega
    simp only [roundMagnitude, Nat.div_one, hlog, hround, hsplit]
    exact min_eq_left hmag

/-- A fraction whose value some pattern has is rounded to that pattern. -/
theorem ofUnits_of_units {x : Binary64} (hx : x.magnitude ≤ infMagnitude) {n d : Nat}
    (hd : 0 < d) (heq : n = units x.magnitude * d) : ofUnits x.negative n d = x := by
  have hround : roundMagnitude n d = x.magnitude := by
    rw [roundMagnitude_congr hd Nat.one_pos (show n * 1 = units x.magnitude * d by omega),
      roundMagnitude_units hx]
  rw [ofUnits, hround, ofMagnitude_eta]

/-! ## Literals -/

/-- What is read off the patterns of some numbers, evaluated together. -/
theorem patterns :
    ((0.0 : Binary64) = zero false ∧ zero false ≠ zero true ∧
      ((zero false).isNaN = false ∧ (zero false).isInfinite = false ∧
        (zero false).signedUnits = 0 ∧ (zero false).negative = false) ∧
      nan.isNaN = true ∧ nan + zero false = nan) ∧
    ((0.0 : Binary64).rank = 0 ∧ (0.0 : Binary64).isNaN = false ∧ nan.isNaN = true) ∧
    ((1.0 : Binary64).isNaN = false ∧ (1.0 : Binary64).rank = 1023 * 2 ^ 52) ∧
    ((1000.0 : Binary64).isNaN = false ∧ (1000.0 : Binary64).isInfinite = false ∧
      (1000.0 : Binary64).negative = false ∧ (1000.0 : Binary64).magnitude ≠ 0) ∧
    (1000.0 : Binary64).isFinite = true ∧ units (1000.0 : Binary64).magnitude = 1000 * one ∧
    (ofNat 0 / 1000.0 * 1000.0).toUnsigned 64 = 0 ∧
    ofNat (2 ^ 64) = ofNat (2 ^ 64 - 1) := by
  decide +kernel

theorem isNaN_nan : nan.isNaN = true := patterns.2.1.2.2

theorem magnitude_ofNat_zero : (ofNat 0).magnitude = 0 := by
  rw [ofNat, Nat.zero_mul, magnitude_ofUnits]
  simp [roundMagnitude, roundHalfEven]

end Binary64
