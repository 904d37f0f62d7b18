import PowerForensics.Binary64.Basic

/-! # Decimal text of binary64 numbers

Reading rounds the exact decimal value once. Printing comes in three layouts: the
shortest decimal that reads back to the same pattern, either always positional
(`display`) or with an exponent outside a fixed range (`debug`), and a fixed number
of digits after the point (`fixed`).
-/

namespace Binary64

/-! ## Reading -/

/-- The value of a run of decimal digits. -/
abbrev digitsValue (ds : List Char) : Nat := Nat.ofDigitChars 10 ds 0

/-- An optional leading sign. -/
def splitSign : List Char → Bool × List Char
  | '-' :: cs => (true, cs)
  | '+' :: cs => (false, cs)
  | cs => (false, cs)

/-- The digits after an optional point. -/
def splitFraction : List Char → List Char × List Char
  | '.' :: cs => (cs.takeWhile Char.isDigit, cs.dropWhile Char.isDigit)
  | cs => ([], cs)

/-- An optional exponent that ends the text. -/
def parseExponent : List Char → Option Int
  | [] => some 0
  | c :: cs =>
      let (neg, ds) := splitSign cs
      if (c = 'e' ∨ c = 'E') ∧ ds ≠ [] ∧ ds.all Char.isDigit then
        some (if neg then -(digitsValue ds : Int) else digitsValue ds)
      else none

/-- Digits with an optional point among or around them and an optional exponent. -/
def parseNumber (neg : Bool) (cs : List Char) : Option Binary64 :=
  let int := cs.takeWhile Char.isDigit
  let (frac, rest) := splitFraction (cs.dropWhile Char.isDigit)
  if int = [] ∧ frac = [] then none
  else (parseExponent rest).map fun e =>
    ofDecimal neg (digitsValue (int ++ frac)) (e - frac.length)

/-- The names of the values without digits, in any letter case. -/
def parseName (neg : Bool) (cs : List Char) : Option Binary64 :=
  let name := cs.map Char.toLower
  if name = "inf".toList ∨ name = "infinity".toList then some (infinity neg)
  else if name = "nan".toList then some (if neg then -nan else nan)
  else none

/-- Read a decimal number. -/
def parse (cs : List Char) : Option Binary64 :=
  let (neg, rest) := splitSign cs
  (parseNumber neg rest).or (parseName neg rest)

/-! ## Printing -/

def zeros (n : Nat) : List Char := List.replicate n '0'

/-- The exponent of the leading decimal digit of `n / d`. -/
def leadingExponent (n d : Nat) : Int :=
  if d ≤ n then (Nat.toDigits 10 (n / d)).length - 1
  else -((Nat.toDigits 10 ((d - 1) / n)).length : Int)

/-- The decimal with at most `k` digits nearest to `n` units that rounds to the given
magnitude, or else the other neighbour, if one of them does. -/
def decimalWithDigits (mag k : Nat) : Option (Nat × Int) :=
  let e := leadingExponent (units mag) one - (k - 1)
  let num := if 0 ≤ e then units mag else units mag * 10 ^ (-e).toNat
  let den := if 0 ≤ e then one * 10 ^ e.toNat else one
  let q := num / den
  let below := (q, e)
  let above := if q + 1 = 10 ^ k then (1, e + k) else (q + 1, e)
  let candidates := if 2 * (num % den) ≤ den then [below, above] else [above, below]
  candidates.find? fun c => c.1 ≠ 0 ∧ ofDecimal false c.1 c.2 = ofMagnitude false mag

/-- A decimal `m * 10 ^ e` with the fewest digits that rounds to the given
magnitude. Seventeen digits always suffice; the exact expansion is the default. -/
def shortest (mag : Nat) : Nat × Int :=
  ((List.range 17).findSome? fun k => decimalWithDigits mag (k + 1)).getD
    (units mag * 5 ^ unitExponent, -unitExponent)

/-- Positional layout of `0.d₁d₂… * 10 ^ exp` with at least `frac` digits after the
point. -/
def layoutDecimal (ds : List Char) (exp : Int) (frac : Nat) : List Char :=
  if exp ≤ 0 then
    ['0', '.'] ++ zeros (-exp).toNat ++ ds ++ zeros (frac - ((-exp).toNat + ds.length))
  else if exp < ds.length then
    ds.take exp.toNat ++ '.' :: ds.drop exp.toNat ++ zeros (frac - (ds.length - exp.toNat))
  else
    ds ++ zeros (exp.toNat - ds.length) ++ (if 0 < frac then '.' :: zeros frac else [])

/-- Layout of `0.d₁d₂… * 10 ^ exp` with one digit before the point and an exponent. -/
def layoutExponent (ds : List Char) (exp : Int) : List Char :=
  ds.take 1 ++ (if 1 < ds.length then '.' :: ds.drop 1 else []) ++
    'e' :: (if exp - 1 < 0 then ['-'] else []) ++ Nat.toDigits 10 (exp - 1).natAbs

def signText (x : Binary64) : List Char := if x.negative then ['-'] else []

/-- The text of the values without digits; `none` for a number with digits. -/
def nameText (x : Binary64) : Option (List Char) :=
  if x.isNaN then some "NaN".toList
  else if x.isInfinite then some (x.signText ++ "inf".toList)
  else none

/-- Shortest positional layout with at least `frac` digits after the point. -/
def displayMin (frac : Nat) (x : Binary64) : List Char :=
  x.nameText.getD <|
    if x.magnitude = 0 then
      x.signText ++ '0' :: (if 0 < frac then '.' :: zeros frac else [])
    else
      let (m, e) := shortest x.magnitude
      let ds := Nat.toDigits 10 m
      x.signText ++ layoutDecimal ds (ds.length + e) frac

/-- The format `{}`. -/
def display (x : Binary64) : List Char := displayMin 0 x

/-- The format `{:?}`: an exponent is used below `1e-4` and from `1e16` on. -/
def debug (x : Binary64) : List Char :=
  let abs := ofMagnitude false x.magnitude
  if x.nameText = none ∧ (abs ≥ 1e16 ∨ (x.magnitude ≠ 0 ∧ abs < 1e-4)) then
    let (m, e) := shortest x.magnitude
    let ds := Nat.toDigits 10 m
    x.signText ++ layoutExponent ds (ds.length + e)
  else displayMin 1 x

/-- The format `{:.p}`: the nearest decimal with `p` digits after the point. -/
def fixed (p : Nat) (x : Binary64) : List Char :=
  x.nameText.getD <|
    let n := roundHalfEven (units x.magnitude * 10 ^ p) one
    let frac := Nat.toDigits 10 (n % 10 ^ p)
    x.signText ++ Nat.toDigits 10 (n / 10 ^ p) ++
      (if p = 0 then [] else '.' :: zeros (p - frac.length) ++ frac)

example : String.ofList (debug (ofDecimal true 15 (-8))) = "-1.5e-7" := by decide +kernel
example : String.ofList (display (ofDecimal false 1 21)) = "1000000000000000000000" := by
  decide +kernel
example : String.ofList (fixed 1 (ofDecimal false 25 (-2))) = "0.2" := by decide +kernel

/-! ## Decimal values -/

private theorem ten_pow_pos (k : Nat) : 0 < 10 ^ k := Nat.pow_pos (by decide)

theorem ofDecimal_eq (neg : Bool) (m : Nat) (e : Int) :
    ofDecimal neg m e = ofUnits neg (m * 10 ^ e.toNat * one) (10 ^ (-e).toNat) := by
  unfold ofDecimal
  split
  next hpos => rw [show (-e).toNat = 0 by omega, Nat.pow_zero]
  next hneg => rw [show e.toNat = 0 by omega, Nat.pow_zero, Nat.mul_one]

/-- Zeros appended to the digits and taken off the exponent change nothing. -/
theorem ofDecimal_shift (neg : Bool) (m z : Nat) (e : Int) :
    ofDecimal neg (m * 10 ^ z) (e - z) = ofDecimal neg m e := by
  have hexp : z + (e - z).toNat + (-e).toNat = e.toNat + (-(e - z)).toNat := by omega
  have hpow : 10 ^ z * 10 ^ (e - z).toNat * 10 ^ (-e).toNat =
      10 ^ e.toNat * 10 ^ (-(e - z)).toNat := by
    rw [← Nat.pow_add, ← Nat.pow_add, ← Nat.pow_add, hexp]
  have hval : m * 10 ^ z * 10 ^ (e - z).toNat * one * 10 ^ (-e).toNat =
      m * 10 ^ e.toNat * one * 10 ^ (-(e - z)).toNat :=
    calc m * 10 ^ z * 10 ^ (e - z).toNat * one * 10 ^ (-e).toNat
        = m * one * (10 ^ z * 10 ^ (e - z).toNat * 10 ^ (-e).toNat) := by ring
      _ = m * 10 ^ e.toNat * one * 10 ^ (-(e - z)).toNat := by rw [hpow]; ring
  have hround := roundMagnitude_congr (ten_pow_pos _) (ten_pow_pos _) hval
  rw [ofDecimal_eq, ofDecimal_eq, ofUnits, ofUnits, hround]

theorem ofNat_eq_ofDecimal (n : Nat) : ofNat n = ofDecimal false n 0 := by
  simp [ofNat, ofDecimal_eq]

theorem ofDecimal_neg (neg : Bool) (m k : Nat) :
    ofDecimal neg m (-k) = ofUnits neg (m * one) (10 ^ k) := by
  simp [ofDecimal_eq]

private theorem ofDecimal_exact {mag : Nat} (hmag : mag ≤ infMagnitude) :
    ofDecimal false (units mag * 5 ^ unitExponent) (-unitExponent) = ofMagnitude false mag := by
  have hround : roundMagnitude (units mag * 5 ^ unitExponent * one) (10 ^ unitExponent) = mag := by
    have heq : units mag * 5 ^ unitExponent * one * 1 = units mag * 10 ^ unitExponent := by
      rw [show (10 : Nat) = 5 * 2 from rfl, Nat.mul_pow, one]
      ring
    rw [roundMagnitude_congr (by positivity) Nat.one_pos heq, roundMagnitude_units hmag]
  rw [ofDecimal_neg, ofUnits, hround]

/-- The printed digits read back to the magnitude they were printed from. -/
theorem ofDecimal_shortest {mag : Nat} (hmag : mag ≤ infMagnitude) :
    ofDecimal false (shortest mag).1 (shortest mag).2 = ofMagnitude false mag := by
  unfold shortest
  cases hfound : (List.range 17).findSome? fun k => decimalWithDigits mag (k + 1) with
  | none => exact ofDecimal_exact hmag
  | some c =>
      obtain ⟨k, _, hk⟩ := List.exists_of_findSome?_eq_some hfound
      have hcheck := List.find?_some hk
      simpa using (of_decide_eq_true hcheck).2

end Binary64
