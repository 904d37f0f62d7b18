import PowerForensics.Core.Capture
import PowerForensics.System.Lookup

/-! # Comparison of two phases

Two sessions are compared after what belongs to settling is dropped from each. Everything that is
reported of a side is computed from that side alone; the two sides meet in the differences, in the
confidence and in the validity.
-/

namespace PowerForensics.Analysis

open Stats Session Analyze Compare Distinct FirstSeen Neighbours

/-! ## Settling -/

/-- A session without the first seconds of its series. -/
def trimSettle (s : SessionData) (settleSecs : Binary64) : SessionData :=
  if settleSecs ≤ (0.0 : Binary64) then s
  else
    { s with
      battery := s.battery.filter fun p => settleSecs ≤ p.t
      cpu := s.cpu.filter fun p => settleSecs ≤ p.t
      gpu := s.gpu.filter fun p => settleSecs ≤ p.t
      procs := s.procs.filter fun p => settleSecs ≤ p.t
      display := s.display.filter fun p => settleSecs ≤ p.t
      net := s.net.filter fun p => settleSecs ≤ p.t
      storage := s.storage.filter fun p => settleSecs ≤ p.t
      usb := s.usb.filter fun p => settleSecs ≤ p.t
      selfmon := s.selfmon.filter fun p => settleSecs ≤ p.t }

/-- The interval between samples, at least a twentieth of a second. -/
def medianInterval (ts : List Binary64) : Binary64 :=
  if ts.length < 2 then 1.0
  else
    let diffs := (neighbours ts).map fun w => (w.2 - w.1).abs
    let sorted := diffs.insertionSort fun a b => a.totalRank ≤ b.totalRank
    Max.max (at_ sorted (diffs.length / 2)) 0.05

/-- Samples in about five seconds, between three and thirty. -/
def settleWindow (dtSecs : Binary64) : Nat :=
  Nat.min (Nat.max ((5.0 / Max.max dtSecs 0.05 : Binary64).toUnsigned 64) 3) 30

/-- First index where a series has settled; zero if it was settled or never settles. -/
def detectSettleEnd (series : List Binary64) (dtSecs : Binary64) : Nat :=
  let n := series.length
  let w := settleWindow dtSecs
  if n < 2 * w + 1 then 0
  else
    let med := fun s => (median s).getD .nan
    let stable := med (series.drop (n - w))
    let tol := Max.max (0.5 : Binary64) (0.1 * stable.abs)
    if (med (series.take w) - stable).abs ≤ tol then 0
    else
      let cap := Nat.min (n / 2) (3 * w)
      -- only a short prefix may be a transient
      ((List.range (cap - w)).map (· + 1)).find?
        (fun i => (med ((series.drop i).take w) - stable).abs ≤ tol) |>.getD 0

def autoSettleSecs (vals : List Binary64) (dtSecs : Binary64) : Binary64 :=
  .ofNat (detectSettleEnd vals dtSecs) * Max.max dtSecs 0.05

/-- The seconds to drop: those asked for, or those that settling took. -/
def trimSecs (s : SessionData) (settleS : Binary64) : Binary64 :=
  if (0.0 : Binary64) < settleS then settleS
  else autoSettleSecs (discharges s) (medianInterval (batteryTimes s))

def settled (s : SessionData) (settleS : Binary64) : SessionData :=
  trimSettle s (trimSecs s settleS)

/-! ## What is reported of one side -/

def dischargeMedian (s : SessionData) : Option Binary64 :=
  (PowerSummary.of (discharges s)).map PowerSummary.median

def seriesMedian (points : List (Binary64 × Option Binary64)) : Option Binary64 :=
  median (points.filterMap Prod.snd)

def cpuMed (s : SessionData) : Option Binary64 :=
  seriesMedian (s.cpu.map fun p => (p.t, p.utility.val))

def c3Med (s : SessionData) : Option Binary64 :=
  seriesMedian (s.cpu.map fun p => (p.t, p.c3Pct.val))

def brightnessMed (s : SessionData) : Option Binary64 :=
  seriesMedian (s.display.map fun p => (p.t, p.brightness.val))

/-- The median of the load of the adapter of a name. -/
def gpuMed (name : String) (s : SessionData) : Option Binary64 :=
  seriesMedian (s.gpu.filterMap fun g =>
    ((g.adapters.find? fun x => x.name = name).bind fun x => x.totalUtil.val).map
      fun u => (g.t, some u))

def chargeMed (s : SessionData) : Option Binary64 :=
  median (s.battery.filterMap fun p => p.pct.val)

/-- From the least to the greatest of some values. -/
def extent (values : List Binary64) : Binary64 :=
  values.foldl Max.max (.infinity true) - values.foldl Min.min (.infinity false)

/-- The full capacity: as the battery reports it, or the change of its energy scaled by that of
its charge. -/
def fullCapacityWh (s : SessionData) : Option Binary64 :=
  match s.batteryMeta.fullMwh.filter fun mwh => (0.0 : Binary64) < mwh && mwh.isFinite with
  | some mwh => some (mwh / 1000.0)
  | none =>
      let rems := s.battery.filterMap fun p => p.remainingWh.val
      let pcts := s.battery.filterMap fun p => p.pct.val
      if 2 ≤ rems.length ∧ 2 ≤ pcts.length ∧ (5.0 : Binary64) ≤ extent pcts ∧
          (0.0 : Binary64) < extent rems then
        some (extent rems / (extent pcts / 100.0))
      else none

/-- The last known remaining energy. -/
def lastRemaining (s : SessionData) : Option Binary64 :=
  (s.battery.filterMap fun p => p.remainingWh.val).getLast?

def runtimeHours (remainingWh avgDischargeW : Binary64) : Option Binary64 :=
  if remainingWh < (0.0 : Binary64) ∨ avgDischargeW ≤ (0.0 : Binary64) then none
  else some (remainingWh / avgDischargeW)

def normalizedRuntimeH (medianW fullWh : Binary64) : Option Binary64 :=
  if medianW.isFinite = false ∨ fullWh.isFinite = false ∨ medianW ≤ (0.0 : Binary64) ∨
      fullWh < (0.0 : Binary64) then none
  else some (fullWh / medianW)

/-- The runtime from the last remaining energy of a session. -/
def ownRuntimeH (s : SessionData) (med : Option Binary64) : Option Binary64 :=
  match lastRemaining s, med with
  | some r, some m => if (0.0 : Binary64) < m then runtimeHours r m else none
  | _, _ => none

/-- The runtime from a full charge. -/
def fullRuntimeH (s : SessionData) (med : Option Binary64) : Option Binary64 :=
  match fullCapacityWh s, med with
  | some f, some m => normalizedRuntimeH m f
  | _, _ => none

/-- Names seen in the lists of the busiest processes. -/
def processNames (s : SessionData) : List String :=
  sortedDistinct (s.procs.flatMap fun p => p.top.map ProcEntry.name)

def recordedWh (s : SessionData) : Option Binary64 := s.footer.bind (·.numAt "discharge_wh")

/-! ## Where the sides meet -/

/-- The distance of two values, if both are known. -/
def distance (x y : Option Binary64) : Option Binary64 :=
  match x, y with
  | some x, some y => some (y - x).abs
  | _, _ => none

/-- The difference of two medians, if the first is positive. -/
def deltaW (x y : Option Binary64) : Option Binary64 :=
  match x, y with
  | some x, some y => if (0.0 : Binary64) < x then some (y - x) else none
  | _, _ => none

def relativeW (x y : Option Binary64) : Option Binary64 :=
  match x, y with
  | some x, some y => if (0.0 : Binary64) < x then some ((y - x) / x) else none
  | _, _ => none

def socText (x y : Binary64) : String :=
  s!"SOC drift {fixedText 0 x}% -> {fixedText 0 y}% across phases (>5 pp; " ++
    "the voltage curve confounds a watt comparison)"

def socConfounder (a b : SessionData) : Option String :=
  match chargeMed a, chargeMed b with
  | some x, some y => if (5.0 : Binary64) < (y - x).abs then some (socText x y) else none
  | _, _ => none

inductive Validity where
  | valid
  | questionable
  | invalid
  deriving DecidableEq

def comparisonValidity (medA medB : Option Binary64) (qa qb : CaptureQuality)
    (confounders : List String) (confidence : Confidence) : Validity :=
  if medA = none ∨ medB = none ∨ qa.coverage.any (· < (0.5 : Binary64)) ∨
      qb.coverage.any (· < (0.5 : Binary64)) ∨
      Min.min qa.durationSecs qb.durationSecs < (5.0 : Binary64) then .invalid
  else if confounders ≠ [] ∨ confidence = .low then .questionable
  else .valid

/-- What a full charge lasts longer on the second side, in minutes. -/
def projectedMinutes (normA normB : Option Binary64) : Option Binary64 :=
  match normA, normB with
  | some x, some y => some ((y - x) * 60.0)
  | _, _ => none

structure RuntimeProjection where
  normA : Option Binary64
  normB : Option Binary64
  projected : Option Binary64

def runtimeProjection (a b : SessionData) (medA medB : Option Binary64) : RuntimeProjection :=
  let normA := fullRuntimeH a medA
  let normB := fullRuntimeH b medB
  ⟨normA, normB, projectedMinutes normA normB⟩

/-! ## The lines of a comparison -/

/-- One line, if both sides have the value. -/
def bothLine (x y : Option Binary64) (line : Binary64 → Binary64 → String) : List String :=
  match x, y with
  | some x, some y => [line x y]
  | _, _ => []

def policyDiff (label : String) (f : Policy → Telemetry Binary64) (a b : SessionData) :
    List String :=
  match (f a.policy).val, (f b.policy).val with
  | some x, some y =>
      if Calibration.epsilon < (x - y).abs then
        [s!"[measured] {label}: {fixedText 0 x} -> {fixedText 0 y}"]
      else []
  | _, _ => []

def policyLines (a b : SessionData) : List String :=
  policyDiff "cpu_min_dc" Policy.cpuMinDc a b ++ policyDiff "cpu_max_dc" Policy.cpuMaxDc a b ++
  policyDiff "brightness_dc" Policy.brightnessDc a b ++
  policyDiff "display_timeout_dc" Policy.displayTimeoutDc a b ++
  policyDiff "sleep_timeout_dc" Policy.sleepTimeoutDc a b ++
  (if a.policy.schemeName ≠ b.policy.schemeName then
    ["[measured] power scheme: " ++ a.policy.schemeName.getD "?" ++ " -> " ++
      b.policy.schemeName.getD "?"]
  else [])

/-- The adapters of both sides, in the order they are first seen. -/
def adapterNames (a b : SessionData) : List String :=
  firstSeen id ([a, b].flatMap fun s =>
    s.gpu.flatMap fun g => g.adapters.map GpuAdapterPoint.name)

/-- The first few processes of one side that the other does not have. -/
def processLine (what : String) (names others : List String) : List String :=
  let only := (names.filter fun name => name ∉ others).take 6
  if only = [] then [] else [s!"[measured] processes {what} in B: " ++ ", ".intercalate only]

def comparisonLines (a b : SessionData) : List String :=
  bothLine (cpuMed a) (cpuMed b)
    (fun x y => s!"[derived] CPU utility median: {fixedText 1 x}% -> {fixedText 1 y}%") ++
  bothLine (c3Med a) (c3Med b)
    (fun x y => s!"[derived] CPU % C3 residency median: {fixedText 0 x}% -> {fixedText 0 y}%") ++
  ((adapterNames a b).flatMap fun name => bothLine (gpuMed name a) (gpuMed name b) fun x y =>
    s!"[derived] GPU {name} engine-sum median: {fixedText 1 x}% -> {fixedText 1 y}%") ++
  bothLine (brightnessMed a) (brightnessMed b)
    (fun x y => s!"[derived] display brightness median: {fixedText 0 x}% -> {fixedText 0 y}%") ++
  policyLines a b ++
  processLine "appearing" (processNames b) (processNames a) ++
  processLine "gone" (processNames a) (processNames b) ++
  ["[note] thermal state unobservable (no CPU temperature sensor; background CPU drift above " ++
    "is the only thermal proxy)"] ++
  bothLine (recordedWh a) (recordedWh b)
    (fun x y => s!"[derived] session discharge energy: {fixedText 3 x} Wh -> {fixedText 3 y} Wh")

/-! ## The comparison -/

structure Comparison where
  labelA : String
  labelB : String
  medA : Option Binary64
  medB : Option Binary64
  deltaW : Option Binary64
  rel : Option Binary64
  runtimeAH : Option Binary64
  runtimeBH : Option Binary64
  runtimeNormAH : Option Binary64
  runtimeNormBH : Option Binary64
  projectedDeltaMin : Option Binary64
  lines : List String
  confidence : Confidence
  confidenceNote : String
  validity : Validity

/-- A comparison from the medians and the quality of both sides. -/
def comparisonFromStats (a b : SessionData) (medA medB : Option Binary64) (qa qb : CaptureQuality)
    (confidence : Confidence) (confidenceNote : String) (confounders lines : List String) :
    Comparison :=
  let projection := runtimeProjection a b medA medB
  { labelA := a.label
    labelB := b.label
    medA
    medB
    deltaW := deltaW medA medB
    rel := relativeW medA medB
    runtimeAH := ownRuntimeH a medA
    runtimeBH := ownRuntimeH b medB
    runtimeNormAH := projection.normA
    runtimeNormBH := projection.normB
    projectedDeltaMin := projection.projected
    lines := lines ++ confounders.map ("[confounder] " ++ ·)
    confidence
    confidenceNote
    validity := comparisonValidity medA medB qa qb confounders confidence }

/-- The comparison of two sessions that have settled. -/
def compareSettled (a b : SessionData) : Comparison :=
  let medA := dischargeMedian a
  let medB := dischargeMedian b
  let qa := captureQuality a (discharges a)
  let qb := captureQuality b (discharges b)
  let c := abConfidence qa qb (deltaW medA medB) (distance (cpuMed a) (cpuMed b))
  let confounders := c.confounders ++ (socConfounder a b).toList
  comparisonFromStats a b medA medB qa qb c.level c.note confounders (comparisonLines a b)

def compareSessionsWithSettle (a b : SessionData) (settleS : Binary64) : Comparison :=
  compareSettled (settled a settleS) (settled b settleS)

end PowerForensics.Analysis
