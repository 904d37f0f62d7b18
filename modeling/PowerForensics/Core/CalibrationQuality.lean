import PowerForensics.Binary64.Decimal
import PowerForensics.Core.Calibration

/-! # Quality of a calibration

The quality follows from several kinds of evidence, and comes with the reasons for it.
-/

namespace PowerForensics.Calibration

inductive ReferenceKind where
  | externalMeter
  | benchMeter
  | oemReading
  | manualReference
  | fittedAgainstEstimate
  deriving DecidableEq

def ReferenceKind.parse (s : String) : Option ReferenceKind :=
  if s = "external_meter" then some .externalMeter
  else if s = "bench_meter" then some .benchMeter
  else if s = "oem_reading" then some .oemReading
  else if s = "manual_reference" then some .manualReference
  else if s = "fitted_against_estimate" then some .fittedAgainstEstimate
  else none

def ReferenceKind.isIndependent (k : ReferenceKind) : Bool := k ≠ .fittedAgainstEstimate

inductive CalibrationQuality where
  | validated
  | usableWithCaveats
  | weak
  | insufficientEvidence
  | outOfDomain
  deriving DecidableEq

def CalibrationQuality.asStr : CalibrationQuality → String
  | validated => "validated"
  | usableWithCaveats => "usable_with_caveats"
  | weak => "weak"
  | insufficientEvidence => "insufficient_evidence"
  | outOfDomain => "out_of_domain"

structure QualityInput where
  n : Nat
  independentValidation : Bool
  validation : Option ValidationStats
  referenceSpan : Option Binary64
  inputMin : Binary64
  inputMax : Binary64
  targetDomain : Binary64 × Binary64
  independentReference : Bool
  hardwareMatches : Bool

def percent (x : Binary64) : String := String.ofList ((x * 100.0).fixed 0)

/-- The part of the target's range that the levels cover. -/
def coverage (input : QualityInput) : Binary64 :=
  let domainSpan := max (input.targetDomain.2 - input.targetDomain.1) relativeEpsilon
  let covered := max (input.inputMax - input.inputMin) 0.0
  (covered / domainSpan).clamp 0.0 1.0

/-- The held-out error relative to the spread of the references. -/
def relativeMae (input : QualityInput) : Option Binary64 :=
  let span := (input.referenceSpan.getD 0.0).abs
  match input.validation with
  | some v => if relativeEpsilon < span then some (v.mae / span) else none
  | none => none

def reasonIf (p : Prop) [Decidable p] (reason : String) : List String := if p then [reason] else []

def classify (input : QualityInput) : CalibrationQuality × List String :=
  let hardware := reasonIf (input.hardwareMatches = false)
    "hardware identity does not match the current machine"
  if input.n < 2 then
    (.insufficientEvidence, hardware ++ ["fewer than two reference points"])
  else
    let coverage := coverage input
    let mae := relativeMae input
    let reasons := hardware ++
      reasonIf (input.independentReference = false)
        "reference is another estimate, not an independent measurement" ++
      reasonIf (coverage < 0.25)
        s!"input sweep covers only {percent coverage}% of the target range" ++
      match mae with
      | some rel =>
          reasonIf (0.25 < rel) s!"held-out mean error is {percent rel}% of the reference span"
      | none => []
    if input.n < 3 ∧ input.independentValidation = false then
      (.insufficientEvidence, reasons ++ ["only two points and no independent validation"])
    else if input.independentReference ∧ input.independentValidation ∧ 5 ≤ input.n ∧
        input.hardwareMatches ∧ (0.4 : Binary64) ≤ coverage ∧ mae.any (· ≤ 0.15) then
      (.validated, reasons ++ ["independent reference with small held-out error"])
    else if input.hardwareMatches = false ∨ input.validation.isNone ∨ coverage < 0.25 ∨
        mae.any (0.25 < ·) ∨ input.n < 4 then
      (.weak,
        if reasons = [] then ["limited evidence (few points or no independent validation)"]
        else reasons)
    else
      (.usableWithCaveats,
        if reasons = [] then ["usable: independent reference or adequate coverage"] else reasons)

end PowerForensics.Calibration
