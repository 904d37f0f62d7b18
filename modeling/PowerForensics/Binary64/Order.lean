import Mathlib.Data.Nat.Sqrt
import PowerForensics.Binary64.Basic

/-! # Order and sign of binary64 numbers

Absolute value, sign, minimum, rounding to integers and the equality of values, in which both
zeros are equal and a pattern that is not a number is equal to nothing.
-/

namespace Binary64

def abs (x : Binary64) : Binary64 := ofMagnitude false x.magnitude

/-- One with the sign of a number; a pattern that is not a number is its own sign. -/
def signum (x : Binary64) : Binary64 :=
  if x.isNaN then x else if x.negative then -1.0 else 1.0

/-- The smaller number; an argument that is not a number is ignored. -/
instance : Min Binary64 where
  min x y := if x.isNaN then y else if y.isNaN then x else if y < x then y else x

/-- The integer nearest to a number, ties away from zero. -/
def round (x : Binary64) : Binary64 :=
  if x.isFinite then ofUnits x.negative ((units x.magnitude + one / 2) / one * one) 1 else x

/-- Truncation toward zero into a signed integer of `w` bits, like the one into an unsigned
integer. -/
def toSigned (w : Nat) (x : Binary64) : Int :=
  if x.isNaN then 0
  else if x.negative then
    if x.isInfinite then -2 ^ (w - 1) else max (-(units x.magnitude / one : Nat)) (-2 ^ (w - 1))
  else if x.isInfinite then 2 ^ (w - 1) - 1
  else min (units x.magnitude / one : Nat) (2 ^ (w - 1) - 1)

/-- A number moved between two bounds. -/
def clamp (x lo hi : Binary64) : Binary64 :=
  let x := if x < lo then lo else x
  if hi < x then hi else x

/-- The remainder of a division, with the sign of the dividend. -/
def rem (x y : Binary64) : Binary64 :=
  if x.isNaN || y.isNaN || x.isInfinite || y.magnitude = 0 then nan
  else if y.isInfinite then x
  else ofUnits x.negative (units x.magnitude % units y.magnitude) 1

/-- Equality of values. -/
def equals (x y : Binary64) : Bool := !x.isNaN && !y.isNaN && x.rank == y.rank

/-! ## The total order -/

theorem totalRank_injective : Function.Injective totalRank := by
  intro x y h
  have hneg : x.negative = y.negative := by
    unfold totalRank at h
    cases hx : x.negative <;> cases hy : y.negative <;> simp [hx, hy] at h ⊢ <;> omega
  apply ext_fields hneg
  unfold totalRank at h
  rw [hneg] at h
  split at h <;> omega

/-! ## Signs -/

@[simp] theorem magnitude_abs (x : Binary64) : x.abs.magnitude = x.magnitude :=
  magnitude_ofMagnitude false x.magnitude_lt

@[simp] theorem negative_abs (x : Binary64) : x.abs.negative = false :=
  negative_ofMagnitude false x.magnitude_lt

@[simp] theorem magnitude_neg (x : Binary64) : (-x).magnitude = x.magnitude :=
  magnitude_ofMagnitude _ x.magnitude_lt

@[simp] theorem negative_neg (x : Binary64) : (-x).negative = !x.negative :=
  negative_ofMagnitude _ x.magnitude_lt

end Binary64

/-! ## Sums and roots

A sum of numbers begins with the negative zero, the one number that adding to changes nothing. A
square root is rounded once. What is not a number stays so in every operation.
-/

namespace Binary64

def sum (xs : List Binary64) : Binary64 := xs.foldl (· + ·) (zero true)

def square (x : Binary64) : Binary64 := x * x

/-- The root of the units with two more bits, and a last one for what is left over. -/
def sqrt (x : Binary64) : Binary64 :=
  if x.isNaN then nan
  else if x.magnitude = 0 then x
  else if x.negative then nan
  else if x.isInfinite then x
  else
    let n := units x.magnitude * one * 16
    let root := n.sqrt
    ofUnits false (2 * root + if root * root = n then 0 else 1) 8

/-! ## What is not a number -/

theorem add_of_nan {x y : Binary64} (h : x.isNaN ∨ y.isNaN) : x + y = nan := by
  have hadd : x + y = add x y := rfl
  rw [hadd, add, if_pos (by simpa using h)]

theorem isNaN_opposite (x : Binary64) : (neg x).isNaN = x.isNaN := by
  have hmag : (neg x).magnitude = x.magnitude := magnitude_neg x
  rw [isNaN, isNaN, hmag]

theorem sub_of_nan {x y : Binary64} (h : x.isNaN ∨ y.isNaN) : x - y = nan := by
  have hsub : x - y = x + neg y := rfl
  rw [hsub, add_of_nan (by rwa [isNaN_opposite])]

theorem div_of_nan {x y : Binary64} (h : x.isNaN ∨ y.isNaN) : x / y = nan := by
  have hdiv : x / y = div x y := rfl
  rw [hdiv, div, if_pos (by simpa using h)]

theorem foldl_add_of_nan (xs : List Binary64) {start : Binary64}
    (h : start = nan ∨ ∃ x ∈ xs, x.isNaN) : xs.foldl (· + ·) start = nan := by
  induction xs generalizing start with
  | nil =>
      obtain h | ⟨x, hx, -⟩ := h
      · exact h
      · cases hx
  | cons y xs ih =>
      refine ih ?_
      obtain rfl | ⟨x, hx, hnan⟩ := h
      · exact Or.inl (add_of_nan (Or.inl isNaN_nan))
      · obtain rfl | hx := List.mem_cons.1 hx
        · exact Or.inl (add_of_nan (Or.inr hnan))
        · exact Or.inr ⟨x, hx, hnan⟩

/-- A sum with a summand that is not a number is none. -/
theorem sum_of_nan {xs : List Binary64} {x : Binary64} (hx : x ∈ xs) (hnan : x.isNaN) :
    sum xs = nan :=
  foldl_add_of_nan xs (Or.inr ⟨x, hx, hnan⟩)

end Binary64
