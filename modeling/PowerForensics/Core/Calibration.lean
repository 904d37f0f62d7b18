import PowerForensics.Binary64.Order
import PowerForensics.Core.Stats
import PowerForensics.System.Merging

/-! # Display calibration

A line is fitted to the references of some brightness levels. With enough of them every third
one, in the order of the levels, is held out, and a line through the others says how well such a
line predicts them.
-/

namespace PowerForensics.Calibration

open Merging

/-- A level and its reference. -/
abbrev Point : Type := Binary64 × Binary64

/-! ## Lines -/

structure LinearFit where
  slope : Binary64
  intercept : Binary64
  r2 : Binary64
  n : Nat

def epsilon : Binary64 := 2.220446049250313e-16

def levels (points : List Point) : List Binary64 := points.map Prod.fst

def references (points : List Point) : List Binary64 := points.map Prod.snd

/-- What the spread of the levels amounts to. -/
def spread (levels : List Binary64) : Binary64 :=
  .ofNat levels.length * .sum (levels.map fun x => x * x) - .sum levels * .sum levels

def predict (fit : LinearFit) (x : Binary64) : Binary64 := fit.intercept + fit.slope * x

def fitLinear (points : List Point) : Option LinearFit :=
  let n := points.length
  if n < 2 then none
  else
    let nf := Binary64.ofNat n
    let sx := Binary64.sum (levels points)
    let sy := Binary64.sum (references points)
    let sxy := Binary64.sum (points.map fun p => p.1 * p.2)
    let denom := spread (levels points)
    if denom.abs < epsilon then none
    else
      let slope := (nf * sxy - sx * sy) / denom
      let intercept := (sy - slope * sx) / nf
      let meanY := sy / nf
      let ssTot := Binary64.sum ((references points).map fun y => (y - meanY).square)
      let ssRes := Binary64.sum (points.map fun p => (p.2 - (intercept + slope * p.1)).square)
      let r2 := if ssTot.abs < epsilon then 0.0 else (1.0 - ssRes / ssTot).clamp 0.0 1.0
      some ⟨slope, intercept, r2, n⟩

/-! ## Validation -/

structure ValidationStats where
  n : Nat
  mae : Binary64
  rmse : Binary64
  medianAbsError : Binary64
  maxAbsError : Binary64
  r2 : Option Binary64

structure Residual where
  input : Binary64
  predicted : Binary64
  reference : Binary64
  absError : Binary64
  relativeError : Option Binary64
  heldOut : Bool
  inDomain : Bool

structure FitOutcome where
  n : Nat
  trainN : Nat
  validationN : Nat
  slope : Binary64
  intercept : Binary64
  r2Fit : Binary64
  validation : Option ValidationStats
  residuals : List Residual
  inputMin : Binary64
  inputMax : Binary64
  independentValidation : Bool

def minValidationN : Nat := 4
def validationFraction : Binary64 := 0.3
def relativeEpsilon : Binary64 := 1e-9

def relativeError (predicted reference : Binary64) : Option Binary64 :=
  if reference.abs < relativeEpsilon then none else some ((predicted - reference) / reference)

/-- Predictions with their references. -/
def validationStats (errors : List (Binary64 × Binary64)) (n : Nat) : ValidationStats :=
  let k := Binary64.ofNat errors.length
  let abs := errors.map fun e => (e.1 - e.2).abs
  let squares := errors.map fun e => (e.1 - e.2).square
  let refs := errors.map Prod.snd
  let meanRef := .sum refs / k
  let ssTot := Binary64.sum (refs.map fun r => (r - meanRef).square)
  let ssRes := Binary64.sum squares
  { n
    mae := .sum abs / k
    rmse := (.sum squares / k).sqrt
    medianAbsError := (Stats.median abs).getD 0.0
    maxAbsError := abs.foldl max 0.0
    r2 :=
      if ssTot.abs < relativeEpsilon then none
      else some ((1.0 - ssRes / ssTot).clamp (-1.0) 1.0) }

/-- Every how many levels one is held out. -/
def holdOutEvery : Nat := (max (1.0 / validationFraction : Binary64).round 2.0).toUnsigned 64

/-- The elements of a list apart from every `k`th, and these, counted on from an index. -/
def takeOut {α : Type} (k : Nat) : Nat → List α → List α × List α
  | _, [] => ([], [])
  | i, a :: l =>
      let (train, val) := takeOut k (i + 1) l
      if (i + 1) % k = 0 then (train, a :: val) else (a :: train, val)

def byLevel (points : List Point) : List Point := stableSort (fun p => p.1.totalRank) points

/-- The points that a line is fitted to, and those that are held out. -/
def holdOut (sorted : List Point) : List Point × List Point :=
  if minValidationN ≤ sorted.length then
    let (train, val) := takeOut holdOutEvery 0 sorted
    if train.length < 2 ∨ val = [] then (sorted, []) else (train, val)
  else (sorted, [])

/-- A point is held out if it equals one that is. -/
def isHeldOut (validation : List Point) (p : Point) : Bool :=
  validation.any fun v => v.1.equals p.1 && v.2.equals p.2

def residual (fit : LinearFit) (validation : List Point) (p : Point) : Residual :=
  let predicted := predict fit p.1
  { input := p.1
    predicted
    reference := p.2
    absError := (predicted - p.2).abs
    relativeError := relativeError predicted p.2
    heldOut := isHeldOut validation p
    inDomain := true }

/-- The line that the residuals are taken from: through the points that are not held out, or
through all if there is none. -/
def trainFit (train validation : List Point) (fitAll : LinearFit) : LinearFit :=
  if validation = [] then fitAll else (fitLinear train).getD fitAll

def fitDisplayCalibration (points : List Point) : Option FitOutcome :=
  if points.length < 2 then none
  else
    let sorted := byLevel points
    let (train, validation) := holdOut sorted
    match fitLinear sorted with
    | none => none
    | some fitAll =>
        let fit := trainFit train validation fitAll
        let valErrors := (sorted.filter (isHeldOut validation)).map fun p => (predict fit p.1, p.2)
        let stats :=
          if valErrors = [] then none else some (validationStats valErrors validation.length)
        some
          { n := sorted.length
            trainN := train.length
            validationN := validation.length
            slope := fitAll.slope
            intercept := fitAll.intercept
            r2Fit := fitAll.r2
            validation := stats
            residuals := sorted.map (residual fit validation)
            inputMin := (levels sorted).foldl min (.infinity false)
            inputMax := (levels sorted).foldl max (.infinity true)
            independentValidation := stats.isSome }

end PowerForensics.Calibration
