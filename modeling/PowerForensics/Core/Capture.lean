import PowerForensics.Core.Calibration
import PowerForensics.Core.CompareRanges
import PowerForensics.Core.Experiment
import PowerForensics.System.Neighbours

/-! # Captures

A phase is judged by how it was captured, apart from what it measured. Two captures have a
confidence between them; whatever confounds a comparison is reported and takes one level away.
-/

namespace PowerForensics.Analysis

open Stats Session Analyze Compare Neighbours

inductive Confidence where
  | high
  | medium
  | low
  deriving DecidableEq

/-- Median, outer tenths and mean of a power series. -/
structure PowerSummary where
  n : Nat
  median : Binary64
  p10 : Binary64
  p90 : Binary64
  mean : Binary64

def PowerSummary.of (values : List Binary64) : Option PowerSummary :=
  if values = [] then none
  else do
    let median ← percentileSorted values 50.0
    let p10 ← percentileSorted values 10.0
    let p90 ← percentileSorted values 90.0
    let mean ← Experiment.mean values
    some ⟨values.length, median, p10, p90, mean⟩

/-- The known discharge of a session. -/
def discharges (s : SessionData) : List Binary64 := s.battery.filterMap fun p => p.discharge.val

def batteryTimes (s : SessionData) : List Binary64 := s.battery.map BatteryPoint.t

/-! ## Quality of a capture -/

structure CaptureQuality where
  n : Nat
  durationSecs : Binary64
  uniqueValues : Nat
  spread : Binary64
  absSpreadW : Binary64
  maxGapSecs : Binary64
  coverage : Option Binary64
  rhoLag1 : Binary64
  observedHz : Option Binary64
  medianDtSecs : Binary64
  discontinuities : Nat
  unobservedSecs : Binary64

def maxClockSkewSecs : Binary64 := 2.0

/-- From the first of some times to the last one, if it is later. -/
def spanOf (times : List Binary64) : Binary64 :=
  match times.head?, times.getLast? with
  | some a, some b => if a < b then b - a else 0.0
  | _, _ => 0.0

/-- The spread of a series, relative to its median and in watts. -/
def spreadsOf (summary : Option PowerSummary) : Binary64 × Binary64 :=
  match summary with
  | some x =>
      (if Calibration.epsilon < x.median.abs then (x.p90 - x.p10) / x.median
        else .infinity false, x.p90 - x.p10)
  | none => (.infinity false, .infinity false)

def captureQuality (s : SessionData) (vals : List Binary64) : CaptureQuality :=
  let times := batteryTimes s
  let duration := spanOf times
  let spreads := spreadsOf (PowerSummary.of vals)
  let gaps := (neighbours times).map fun w => w.2 - w.1
  let medianDt := (median gaps).getD 0.0
  let opts := s.battery.map fun p => p.discharge.val
  let wall := s.battery.map fun p => seconds p.discharge.stamp.wallMillis
  let gap := Max.max (medianDt * 3.0) 5.0
  let seg := integrateSegmentedClocks times wall opts gap maxClockSkewSecs
  { n := vals.length
    durationSecs := duration
    uniqueValues := uniqueCount vals
    spread := spreads.1
    absSpreadW := spreads.2
    maxGapSecs := gaps.foldl Max.max 0.0
    coverage := seg.coverage
    rhoLag1 := lag1Autocorr vals
    observedHz :=
      if (0.0 : Binary64) < duration ∧ 1 < vals.length then
        some ((.ofNat vals.length - 1.0) / duration)
      else none
    medianDtSecs := medianDt
    discontinuities := seg.discontinuities
    unobservedSecs := seg.unobservedSecs }

/-! ## Confounders of a comparison -/

/-- A number of at least two characters. -/
def twoDigits (x : Binary64) : String :=
  .ofList (List.replicate (2 - (x.fixed 0).length) '0' ++ x.fixed 0)

def fmtH (hours : Binary64) : String :=
  s!"{fixedText 0 hours.floor}h{twoDigits (hours.rem 1.0 * 60.0)}m"

def fmtDuration (secs : Binary64) : String :=
  if (3600.0 : Binary64) ≤ secs then fmtH (secs / 3600.0)
  else if (60.0 : Binary64) ≤ secs then
    s!"{fixedText 0 (secs / 60.0).floor}m{fixedText 0 (secs.rem 60.0)}s"
  else s!"{fixedText 0 secs}s"

/-- Too few distinct readings for the cadence: the sensor was cached, not measuring. -/
def freshnessShortfall (q : CaptureQuality) (side : String) : Option String :=
  match q.observedHz with
  | none => none
  | some hz =>
      if hz.isNaN ∨ hz ≤ 0.0 ∨ q.durationSecs.isNaN ∨ q.durationSecs ≤ 0.0 then none
      else
        let required := Max.max 5.0 (q.durationSecs * hz * 0.1).ceil
        if Binary64.ofNat q.uniqueValues < required then
          some (s!"stale sensor on {side}: {q.uniqueValues} distinct updates in " ++
            s!"{fixedText 0 q.durationSecs}s at ~{fixedText 2 hz} Hz " ++
            s!"(need >={fixedText 0 required})")
        else none

/-- What confounds one side. -/
def sideConfounders (q : CaptureQuality) (side : String) : List String :=
  (if (0.0 : Binary64) < q.medianDtSecs ∧ 3.0 * q.medianDtSecs < q.maxGapSecs then
    [s!"sampling gap on {side}: {fixedText 0 q.maxGapSecs}s exceeds 3x median cadence " ++
      s!"{fixedText 1 q.medianDtSecs}s"]
  else []) ++
  (freshnessShortfall q side).toList ++
  (if 0 < q.discontinuities then
    [s!"clock discontinuity on {side}: {q.discontinuities} boundary(ies), " ++
      s!"{fmtDuration q.unobservedSecs} unobserved (sleep/gap/clock step)"]
  else [])

/-- What confounds both sides together before they are taken one by one. -/
def thinCapture (a b : CaptureQuality) (duration : Binary64) (effN : Nat) : List String :=
  (if duration < (5.0 : Binary64) then [s!"very short capture ({fixedText 0 duration}s)"]
    else []) ++
  (if effN < 5 then [s!"few distinct values (effective n={effN} of {a.n}/{b.n})"] else [])

/-- What confounds both sides together after they are taken one by one. -/
def jointConfounders (spread : Binary64) (coverage effectW cpuMismatchPp : Option Binary64)
    (noise : Binary64) : List String :=
  (if (0.6 : Binary64) ≤ spread then [s!"unstable spread {fixedText 2 spread}"] else []) ++
  (coverage.filter fun c => c < (0.7 : Binary64)).toList.map
    (fun c => s!"low discharge coverage {fixedText 0 (c * 100.0)}%") ++
  (cpuMismatchPp.filter fun m => (5.0 : Binary64) ≤ m).toList.map
    (fun m => s!"background CPU mismatch {fixedText 1 m} pp") ++
  (effectW.filter fun e => e.abs < noise).toList.map
    (fun e => s!"effect {Experiment.signedText 2 e} W is within measured spread " ++
      s!"{fixedText 2 noise} W")

/-! ## Confidence -/

def CaptureQuality.effectiveN (q : CaptureQuality) : Nat :=
  Analyze.effectiveN q.n q.uniqueValues q.rhoLag1

/-- The smaller coverage, if both are known. -/
def smallerOf (x y : Option Binary64) : Option Binary64 :=
  match x, y with
  | some x, some y => some (min x y)
  | _, _ => none

def baseConfidence (duration : Binary64) (effN : Nat) (spread : Binary64)
    (coverage : Option Binary64) : Confidence :=
  if (60.0 : Binary64) ≤ duration ∧ 10 ≤ effN ∧ spread < (0.3 : Binary64) ∧
      coverage.all fun c => (0.9 : Binary64) ≤ c then .high
  else if (20.0 : Binary64) ≤ duration ∧ 5 ≤ effN ∧ spread < (0.6 : Binary64) ∧
      coverage.all fun c => (0.7 : Binary64) ≤ c then .medium
  else .low

def Confidence.downgraded : Confidence → Confidence
  | .high => .medium
  | .medium => .low
  | .low => .low

structure AbConfidence where
  level : Confidence
  note : String
  confounders : List String

/-- The confidence between two captures. What confounds them takes one level away. -/
def abConfidence (a b : CaptureQuality) (effectW cpuMismatchPp : Option Binary64) : AbConfidence :=
  let effN := Min.min a.effectiveN b.effectiveN
  let duration := Min.min a.durationSecs b.durationSecs
  let spread := Max.max a.spread b.spread
  let coverage := smallerOf a.coverage b.coverage
  let noise := Max.max a.absSpreadW b.absSpreadW
  let confounders := thinCapture a b duration effN ++
    (sideConfounders a "A" ++ sideConfounders b "B") ++
    jointConfounders spread coverage effectW cpuMismatchPp noise
  let base := baseConfidence duration effN spread coverage
  let covered := (coverage.map fun c => s!"{fixedText 0 (c * 100.0)}%").getD "n/a"
  { level := if confounders = [] then base else base.downgraded
    note := s!"n={a.n}/{b.n}, distinct={a.uniqueValues}/{b.uniqueValues}, " ++
      s!"{fixedText 0 duration}s, spread {fixedText 2 spread}, coverage {covered}"
    confounders }

end PowerForensics.Analysis
