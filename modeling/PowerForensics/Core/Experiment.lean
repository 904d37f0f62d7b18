import Mathlib.Data.String.Basic
import PowerForensics.Core.Compare
import PowerForensics.System.Distinct

/-! # Experiments over runs

Each run of an experiment is reduced to one outcome, and the two groups are compared over
the outcomes of the runs that are included. The evidence for a difference is classified
separately from the validity of the experiment, and from what else changed between runs.
-/

namespace PowerForensics.Experiment

open Stats Compare Distinct

/-! ## Runs -/

inductive RunGroup where
  | baseline
  | treatment
  deriving DecidableEq

/-- Wording only. -/
inductive TreatmentDirection where
  | lower
  | higher
  | neutral
  deriving DecidableEq

inductive Pairing where
  | unpaired
  | paired
  deriving DecidableEq

structure ExperimentConfig where
  primaryMetric : String
  primaryLabel : String
  primaryUnit : String
  direction : TreatmentDirection
  pairing : Pairing

inductive RunStatus where
  | accepted
  | acceptedWithCaveats
  | invalid
  deriving DecidableEq

structure RunValidation where
  status : RunStatus
  primaryPresent : Bool
  findings : List String
  deriving DecidableEq

def RunValidation.valid (v : RunValidation) : Bool := v.status ≠ .invalid

/-- The median of a run for a further metric, with its label and unit. -/
structure SecondaryValue where
  key : String
  label : String
  unit : String
  median : Option Binary64
  deriving DecidableEq

/-- A run reduced to its outcome. -/
structure RunOutcome where
  id : String
  group : RunGroup
  pairId : Option Nat
  included : Bool
  durationS : Binary64
  primaryValue : Option Binary64
  coverage : Option Binary64
  discontinuities : Nat
  cadenceMs : Option Binary64
  context : RangeContext
  collectors : List String
  processNames : List String
  secondary : List SecondaryValue
  validation : RunValidation
  deriving DecidableEq

def includedRuns (runs : List RunOutcome) : List RunOutcome := runs.filter RunOutcome.included

/-! ## Group summaries -/

structure GroupSummary where
  group : RunGroup
  runsTotal : Nat
  runsIncluded : Nat
  runsExcluded : Nat
  runsWithPrimary : Nat
  runsValid : Nat
  runsInvalid : Nat
  median : Option Binary64
  mean : Option Binary64
  /-- The median of the absolute deviations from the median. -/
  spread : Option Binary64
  min : Option Binary64
  max : Option Binary64
  coverageMedian : Option Binary64
  deriving DecidableEq

def mean (values : List Binary64) : Option Binary64 :=
  if values = [] then none
  else some (values.foldl (· + ·) (.zero true) / .ofNat values.length)

/-- The absolute deviations from a value, or of each from itself. -/
def deviations (center : Option Binary64) (values : List Binary64) : List Binary64 :=
  values.map fun v => (v - center.getD v).abs

/-- The elements of a list taken together from the left. -/
def reduce (f : Binary64 → Binary64 → Binary64) : List Binary64 → Option Binary64
  | [] => none
  | x :: xs => some (xs.foldl f x)

def summarize (group : RunGroup) (runs : List RunOutcome) : GroupSummary :=
  let groupRuns := runs.filter fun r => r.group = group
  let included := includedRuns groupRuns
  let values := included.filterMap RunOutcome.primaryValue
  { group
    runsTotal := groupRuns.length
    runsIncluded := included.length
    runsExcluded := groupRuns.length - included.length
    runsWithPrimary := values.length
    runsValid := (included.filter fun r => r.validation.valid).length
    runsInvalid := (included.filter fun r => !r.validation.valid).length
    median := median values
    mean := mean values
    spread := median (deviations (median values) values)
    min := reduce min values
    max := reduce max values
    coverageMedian := median (included.filterMap RunOutcome.coverage) }

def groupValues (runs : List RunOutcome) (group : RunGroup) : List Binary64 :=
  (runs.filter fun r => r.group = group ∧ r.included).filterMap RunOutcome.primaryValue

/-! ## Pairs -/

structure PairedDifference where
  pairId : Nat
  baselineRun : String
  treatmentRun : String
  baseline : Binary64
  treatment : Binary64
  delta : Binary64
  deriving DecidableEq

structure PairedReport where
  pairs : List PairedDifference
  usablePairs : Nat
  medianDelta : Option Binary64
  spread : Option Binary64
  /-- Every usable pair moved in the direction of the median. -/
  consistent : Bool
  deriving DecidableEq

/-- The runs that a pair can be made of. -/
def measuredRuns (runs : List RunOutcome) : List RunOutcome :=
  runs.filter fun r => r.included && r.primaryValue.isSome

def pairSide (included : List RunOutcome) (id : Nat) (group : RunGroup) : Option RunOutcome :=
  included.find? fun r => r.pairId = some id ∧ r.group = group ∧ r.primaryValue.isSome

/-- The pair of a number, if both of its sides are there. -/
def pairOf (included : List RunOutcome) (id : Nat) : Option PairedDifference := do
  let b ← pairSide included id .baseline
  let t ← pairSide included id .treatment
  let bv ← b.primaryValue
  let tv ← t.primaryValue
  return ⟨id, b.id, t.id, bv, tv, tv - bv⟩

def pairedReport (runs : List RunOutcome) : PairedReport :=
  let included := measuredRuns runs
  let pairIds := sortedDistinct (included.filterMap RunOutcome.pairId)
  let pairs := pairIds.filterMap (pairOf included)
  let deltas := pairs.map PairedDifference.delta
  { pairs
    usablePairs := pairs.length
    medianDelta := median deltas
    spread := median (deviations (median deltas) deltas)
    consistent := decide (2 ≤ deltas.length) &&
      (median deltas).any fun m => deltas.all fun d => d.signum.equals m.signum }

/-! ## Noise -/

inductive NoiseSource where
  | none
  | runToRun
  | insufficient
  deriving DecidableEq

structure NoiseAssessment where
  source : NoiseSource
  estimate : Option Binary64
  note : String
  deriving DecidableEq

def text (places : Nat) (x : Binary64) : String := .ofList (x.fixed places)

/-- A number with its sign. -/
def signedText (places : Nat) (x : Binary64) : String :=
  if x.isNaN || x.negative then text places x else "+" ++ text places x

/-- The report, if it has pairs enough. -/
def usable (n : Nat) (paired : Option PairedReport) : Option PairedReport :=
  paired.filter fun p => n ≤ p.usablePairs

def noiseAssessment (baseline treatment : GroupSummary) (paired : Option PairedReport) :
    NoiseAssessment :=
  let estimate :=
    match usable 2 paired with
    | some p => p.spread.or (baseline.spread.or treatment.spread)
    | none =>
        match baseline.spread, treatment.spread with
        | some a, some b => some (max a b)
        | some a, none => some a
        | none, some b => some b
        | none, none => none
  let source : NoiseSource :=
    if paired.isSome ∧ (usable 2 paired).isNone then .insufficient
    else if estimate.isSome then .runToRun
    else .none
  let note :=
    match source, estimate with
    | .runToRun, some e =>
        let of := if paired.isSome then "paired differences" else "run-level group outcomes"
        s!"Run-to-run spread is about {text 3 e} (median absolute deviation of {of})."
    | .none, _ => "No run-to-run variation was observed, so no noise floor can be estimated."
    | _, _ => "Not enough runs to estimate run-to-run variation."
  ⟨source, estimate, note⟩

/-! ## Bootstrap -/

/-- A linear congruential generator. -/
def Lcg.next (state : UInt64) : UInt64 := state * 1664525 + 1013904223

/-- The next index below a bound. -/
def Lcg.index (state : UInt64) (n : Nat) : Nat × UInt64 :=
  let state := Lcg.next state
  ((state >>> 33).toNat % max n 1, state)

/-- Values drawn with replacement. -/
def resample (values : List Binary64) : Nat → UInt64 → List Binary64 × UInt64
  | 0, state => ([], state)
  | n + 1, state =>
      let (i, state) := Lcg.index state values.length
      let (rest, state) := resample values n state
      (at_ values i :: rest, state)

/-- The median of one sample of each group. -/
def sampleMedians : List (List Binary64) → UInt64 → Option (List Binary64 × UInt64)
  | [], state => some ([], state)
  | group :: groups, state => do
      if group = [] then none
      let (sample, state) := resample group group.length state
      let m ← median sample
      let (rest, state) ← sampleMedians groups state
      return (m :: rest, state)

/-- Of two groups the difference of the last and the first, of one group its median. -/
def bootstrapDiff (medians : List Binary64) : Binary64 :=
  if 2 ≤ medians.length then medians.getLastD 0.0 - medians.headD 0.0 else medians.headD 0.0

def bootstrapDiffs (groups : List (List Binary64)) : Nat → UInt64 → Option (List Binary64)
  | 0, _ => some []
  | n + 1, state => do
      let (medians, state) ← sampleMedians groups state
      let rest ← bootstrapDiffs groups n state
      return bootstrapDiff medians :: rest

def bootstrapMedian (groups : List (List Binary64)) : Option (Binary64 × Binary64) := do
  let diffs ← bootstrapDiffs groups 2000 0x9E3779B97F4A7C15
  let lo ← percentileSorted diffs 5.0
  let hi ← percentileSorted diffs 95.0
  return (lo, hi)

def bootstrapCi (baselineValues treatmentValues : List Binary64) (paired : Option PairedReport) :
    Option (Binary64 × Binary64) :=
  match usable 3 paired with
  | some p => bootstrapMedian [p.pairs.map PairedDifference.delta]
  | none =>
      if baselineValues.length < 3 ∨ treatmentValues.length < 3 then none
      else bootstrapMedian [baselineValues, treatmentValues]

/-! ## Effect -/

inductive EffectDirection where
  | lower
  | higher
  | unchanged
  deriving DecidableEq

structure EffectEstimate where
  baselineValue : Option Binary64
  treatmentValue : Option Binary64
  absoluteDelta : Option Binary64
  relativeDelta : Option Binary64
  direction : EffectDirection
  effectSize : Option Binary64
  confidenceInterval : Option (Binary64 × Binary64)
  paired : Bool
  deriving DecidableEq

/-- The difference of two values that are there. -/
def difference (b t : Option Binary64) : Option Binary64 := b.bind fun b => t.map fun t => t - b

/-- Never a fraction of a value next to zero. -/
def relativeDelta (delta b : Option Binary64) : Option Binary64 :=
  match delta, b with
  | some d, some base => if (1e-9 : Binary64) < base.abs then some (d / base) else none
  | _, _ => none

/-- The direction of a difference; the wording of the treatment never changes it. -/
def effectDirection (delta : Option Binary64) (direction : TreatmentDirection) : EffectDirection :=
  match delta with
  | none => .unchanged
  | some d =>
      match direction with
      | .lower => if d < 0.0 then .lower else if (0.0 : Binary64) < d then .higher else .unchanged
      | .higher => if (0.0 : Binary64) < d then .higher else if d < 0.0 then .lower else .unchanged
      | .neutral => if (0.0 : Binary64) < d then .higher else if d < 0.0 then .lower else .unchanged

def effectSize (delta noise : Option Binary64) : Option Binary64 :=
  match delta, noise with
  | some d, some n => if (0.0 : Binary64) < n then some (d.abs / n) else none
  | _, _ => none

def effectEstimate (baseline treatment : GroupSummary) (noise : NoiseAssessment)
    (paired : Option PairedReport) (config : ExperimentConfig)
    (baselineValues treatmentValues : List Binary64) : EffectEstimate :=
  let delta := difference baseline.median treatment.median
  { baselineValue := baseline.median
    treatmentValue := treatment.median
    absoluteDelta := delta
    relativeDelta := relativeDelta delta baseline.median
    direction := effectDirection delta config.direction
    effectSize := effectSize delta noise.estimate
    confidenceInterval := bootstrapCi baselineValues treatmentValues paired
    paired := (usable 2 paired).isSome }

/-! ## Classification -/

inductive ExperimentResult where
  | consistentDifference
  | possibleDifference
  | withinNoise
  | noDifferenceDetected
  | insufficient
  | confounded
  deriving DecidableEq

inductive ExperimentValidity where
  | valid
  | validWithCaveats
  | weak
  | confounded
  | insufficient
  deriving DecidableEq

/-- A verdict with its reasons. -/
structure Verdict where
  result : ExperimentResult
  validity : ExperimentValidity
  reasons : List String
  deriving DecidableEq

def minUsefulRunsPerGroup : Nat := 2

/-- The verdict on a difference, by the noise between the runs. -/
def classifyDelta (delta : Binary64) (noise : Option Binary64) (consistent : Bool) (runs : Nat) :
    Verdict :=
  if delta.equals 0.0 then
    ⟨.noDifferenceDetected, .valid, ["the group outcomes are identical"]⟩
  else
    match noise with
    | none => ⟨.possibleDifference, .weak, ["too few runs to estimate run-to-run noise"]⟩
    | some noise =>
        let ratio := if (0.0 : Binary64) < noise then delta.abs / noise else .infinity false
        if noise.equals 0.0 then
          ⟨.consistentDifference, .weak, ["no observed run-to-run variation"]⟩
        else if delta.abs ≤ noise then
          ⟨.withinNoise, .weak, [s!"the {text 3 delta} difference is within the observed " ++
            s!"run-to-run spread {text 3 noise}"]⟩
        else if (2.0 : Binary64) ≤ ratio ∧ (consistent ∨ 3 ≤ runs) then
          ⟨.consistentDifference, .validWithCaveats, [s!"difference {text 3 delta} exceeds " ++
            s!"run-to-run spread {text 3 noise} ({text 1 ratio}x)"]⟩
        else
          ⟨.possibleDifference, .weak, [s!"difference {text 3 delta} is larger than the spread " ++
            s!"{text 3 noise} but not decisive"]⟩

/-- Runs that failed leave no result without caveats. -/
def ExperimentValidity.qualified (validity : ExperimentValidity) (failed : Bool) :
    ExperimentValidity :=
  if failed then (match validity with | .valid => .validWithCaveats | other => other) else validity

def classify (baseline treatment : GroupSummary) (effect : EffectEstimate) (noise : NoiseAssessment)
    (paired : Option PairedReport) (criticalConfounder : Bool) (invalidRuns missingPrimary : Nat) :
    Verdict :=
  let n := baseline.runsWithPrimary
  let m := treatment.runsWithPrimary
  let missing :=
    if 0 < missingPrimary then [s!"{missingPrimary} included run(s) lack the primary metric"] else []
  let invalid :=
    if 0 < invalidRuns then [s!"{invalidRuns} included run(s) failed quality validation"] else []
  if criticalConfounder then
    ⟨.confounded, .confounded,
      ["a critical confounder changed between groups (power source / battery state)"]⟩
  else if n = 0 ∨ m = 0 ∨ 0 < missingPrimary ∧ (n = 0 ∨ m = 0) then
    ⟨.insufficient, .insufficient, ["at least one group has no usable primary-metric run"]⟩
  else if n < minUsefulRunsPerGroup ∨ m < minUsefulRunsPerGroup then
    ⟨.insufficient, .insufficient,
      [s!"exploratory only: {n} baseline / {m} treatment run(s) with the primary metric"]⟩
  else
    match effect.absoluteDelta with
    | none =>
        ⟨.insufficient, .insufficient,
          missing ++ invalid ++ ["no group difference could be computed"]⟩
    | some delta =>
        let consistent := paired.any fun p => p.consistent && decide (2 ≤ p.usablePairs)
        let verdict := classifyDelta delta noise.estimate consistent (min n m)
        ⟨verdict.result, verdict.validity.qualified (0 < invalidRuns || 0 < missingPrimary),
          missing ++ invalid ++ verdict.reasons⟩

/-! ## Confounders -/

inductive ConfounderState where
  | controlled
  | changed
  | unknown
  deriving DecidableEq

def ConfounderState.asStr : ConfounderState → String
  | controlled => "controlled"
  | changed => "changed"
  | unknown => "unknown"

structure Confounder where
  key : String
  label : String
  state : ConfounderState
  evidence : String
  /-- The runs that differ from the most of them. -/
  runs : List String
  deriving DecidableEq

def commaSeparated (items : List String) : String := ", ".intercalate items

/-- The value that occurs most often, the first of these. -/
def mostCommon (values : List String) : String :=
  (values.foldl (fun best candidate =>
    let count := values.count candidate
    if best.2 < count then (candidate, count) else best) ("", 0)).1

/-- A value that every run has may vary between them. -/
def pushVariation (key label : String) (values : List (Option String)) (runIds : List String) :
    Confounder :=
  if values.any Option.isNone then ⟨key, label, .unknown, "not recorded for every run", []⟩
  else
    let known := values.filterMap id
    let distinct := sortedDistinct known
    if distinct.length ≤ 1 then ⟨key, label, .controlled, "same on every run", []⟩
    else
      let majority := mostCommon known
      let offending := ((values.zip runIds).filter fun v => v.1 ≠ some majority).map Prod.snd
      let all := " / ".intercalate distinct
      ⟨key, label, .changed, s!"varies across runs ({all})", offending⟩

def boundText (x : Option Binary64) : String := (x.map (text 0)).getD "?"

def cadenceConfounder (included : List RunOutcome) : Confounder :=
  let values := included.filterMap RunOutcome.cadenceMs
  let lo := reduce min values
  let hi := reduce max values
  let state : ConfounderState :=
    if values.length < included.length then .unknown
    else
      match lo, hi with
      | some lo, some hi =>
          if (0.0 : Binary64) < lo ∧ (3.0 : Binary64) < hi / lo then .changed else .controlled
      | _, _ => .unknown
  ⟨"cadence", "Effective cadence", state,
    if state = .controlled then "sample cadence is comparable across runs"
    else s!"cadence ranges from {boundText lo} to {boundText hi} ms", []⟩

def durationConfounder (included : List RunOutcome) : Confounder :=
  let durations := included.map RunOutcome.durationS
  let state : ConfounderState :=
    match reduce min durations, reduce max durations with
    | some lo, some hi =>
        if (0.0 : Binary64) < lo ∧ (1.5 : Binary64) < hi / lo then .changed else .controlled
    | _, _ => .unknown
  ⟨"run_duration", "Run duration", state,
    if state = .controlled then "run durations are comparable"
    else "run durations differ substantially", []⟩

def coverageConfounder (included : List RunOutcome) : Confounder :=
  let known := included.filterMap RunOutcome.coverage
  let state : ConfounderState :=
    if known.length < included.length then .unknown
    else
      let lo := (reduce min known).getD 0.0
      let hi := (reduce max known).getD 0.0
      if (0.2 : Binary64) < hi - lo then .changed else .controlled
  ⟨"coverage", "Coverage", state, "coverage disparity between runs", []⟩

/-- All lists have the same elements as the last one. -/
def setsEqual (sets : List (List String)) : Bool :=
  match (sets.map (sortedDistinct)).reverse with
  | [] => true
  | last :: rest => rest.all fun s => s = last

def collectorConfounder (included : List RunOutcome) : Confounder :=
  ⟨"collectors", "Collector availability",
    if setsEqual (included.map RunOutcome.collectors) then .controlled else .changed,
    "the set of collectors with samples in range differs", []⟩

def discontinuityConfounder (included : List RunOutcome) : Confounder :=
  let discRuns := (included.filter fun r => 0 < r.discontinuities).map RunOutcome.id
  if discRuns = [] then
    ⟨"discontinuities", "Clock discontinuities", .controlled, "no clock discontinuity recorded", []⟩
  else
    ⟨"discontinuities", "Clock discontinuities", .changed,
      s!"clock discontinuity in run(s) {commaSeparated discRuns}", discRuns⟩

/-- The runs that a process was seen in, once for each time it is listed. -/
def presentIn (included : List RunOutcome) (name : String) : List String :=
  included.flatMap fun r => (r.processNames.filter (· = name)).map fun _ => r.id

def processConfounder (included : List RunOutcome) : Confounder :=
  let names := sortedDistinct (included.flatMap RunOutcome.processNames)
  let onlySome := ((names.map fun name => (name, presentIn included name)).filter fun p =>
    p.2.length < included.length).take 8
  if onlySome = [] then
    ⟨"background_processes", "Background processes", .controlled,
      "the same processes were observed in every run", []⟩
  else
    let evidence := "; ".intercalate (onlySome.map fun p => s!"{p.1} only in {commaSeparated p.2}")
    ⟨"background_processes", "Background processes", .changed,
      s!"possible background confounders: {evidence}", onlySome.flatMap Prod.snd⟩

def confounders (runs : List RunOutcome) : List Confounder :=
  let included := includedRuns runs
  let runIds := included.map RunOutcome.id
  [pushVariation "power_source" "Power source" (included.map fun r => r.context.powerSource) runIds,
    pushVariation "power_scheme" "Power scheme" (included.map fun r => r.context.powerScheme) runIds,
    pushVariation "display_refresh" "Display refresh" (included.map fun r => r.context.refreshHz)
      runIds,
    cadenceConfounder included, durationConfounder included, coverageConfounder included,
    collectorConfounder included, discontinuityConfounder included] ++
    if included = [] then [] else [processConfounder included]

/-! ## Secondary metrics -/

structure SecondaryComparison where
  metric : String
  label : String
  unit : String
  baselineMedian : Option Binary64
  treatmentMedian : Option Binary64
  delta : Option Binary64
  comparable : Bool
  note : String
  deriving DecidableEq

/-- What the runs have measured of a further metric. -/
def secondaryValues (included : List RunOutcome) (key : String) :
    List (RunGroup × SecondaryValue × Binary64) :=
  included.filterMap fun r => do
    let found ← r.secondary.find? fun v => v.key = key
    let value ← found.median
    return (r.group, found, value)

def secondaryOf (included : List RunOutcome) (key : String) : Option SecondaryComparison :=
  let found := secondaryValues included key
  let a := (found.filter fun f => f.1 = .baseline).map fun f => f.2.2
  let b := (found.filter fun f => f.1 = .treatment).map fun f => f.2.2
  if a = [] ∧ b = [] then none
  else
    -- the first label that is not empty, with its unit
    let named := found.foldl (fun named f =>
      if named.1 = "" then (f.2.1.label, f.2.1.unit) else named) ("", "")
    let comparable := (median a).isSome && (median b).isSome
    some
      { metric := key
        label := if named.1 = "" then key else named.1
        unit := named.2
        baselineMedian := median a
        treatmentMedian := median b
        delta := difference (median a) (median b)
        comparable
        note :=
          if comparable then "Observed alongside the primary result; correlation is not causation."
          else "Not present on both groups; not comparable." }

def secondaryComparison (runs : List RunOutcome) (primary : String) : List SecondaryComparison :=
  (curatedMetricKeys.filter (· ≠ primary)).filterMap (secondaryOf (includedRuns runs))

/-! ## Wording -/

def fmtValue (v : Option Binary64) (unit : String) : String :=
  match v with
  | some v => if unit = "" then text 3 v else s!"{text 3 v} {unit}"
  | none => "—"

def pairLines (config : ExperimentConfig) (paired : Option PairedReport) : List String :=
  match usable 2 paired with
  | some ⟨_, n, some med, some spread, consistent⟩ =>
      s!"Median paired difference {signedText 3 med} {config.primaryUnit} across {n} pair(s); pair spread {text 3 spread}." ::
        if consistent then
          [s!"All {n} paired treatment runs moved in the same direction as the median."]
        else []
  | _ => []

def deltaLines (config : ExperimentConfig) (effect : EffectEstimate) : List String :=
  effect.absoluteDelta.toList.map fun delta =>
    let rel := (effect.relativeDelta.map fun r => s!" ({signedText 1 (r * 100.0)}%)").getD ""
    let word :=
      match effect.direction with
      | .lower => "lower"
      | .higher => "higher"
      | .unchanged => "different"
    s!"Treatment runs showed {text 3 delta.abs} {config.primaryUnit} {word} {config.primaryLabel} than baseline{rel}."

def sizeLines (n : Nat) : List String :=
  if n ≤ 1 then ["Only one usable run per group: exploratory only, no reproducibility evidence."]
  else if n = 2 then ["Two usable runs per group: very weak reproducibility evidence."]
  else if n = 3 then ["Three usable runs per group: limited reproducibility evidence."]
  else []

def resultLine : ExperimentResult → String
  | .consistentDifference => "The observed difference exceeded the observed run-to-run variation."
  | .withinNoise => "The observed difference is within run-to-run noise."
  | .noDifferenceDetected =>
      "No measurable difference was detected; this does not prove no difference exists."
  | .possibleDifference =>
      "A possible difference was observed, but it is not decisive against run-to-run noise."
  | .confounded =>
      "The comparison is confounded; the observed difference cannot be attributed to the treatment."
  | .insufficient => "Insufficient runs for a defensible between-group conclusion."

def summaryLines (config : ExperimentConfig) (baseline treatment : GroupSummary)
    (effect : EffectEstimate) (noise : NoiseAssessment) (paired : Option PairedReport)
    (classification : ExperimentResult) : List String :=
  [s!"Baseline: {config.primaryLabel} median {fmtValue effect.baselineValue config.primaryUnit} across {baseline.runsWithPrimary} run(s).",
    s!"Treatment: {config.primaryLabel} median {fmtValue effect.treatmentValue config.primaryUnit} across {treatment.runsWithPrimary} run(s)."] ++
    pairLines config paired ++ deltaLines config effect ++
    sizeLines (min baseline.runsWithPrimary treatment.runsWithPrimary) ++
    [resultLine classification, noise.note] ++
    if config.direction ≠ .neutral ∧ effect.direction ≠ .unchanged then
      ["Desired direction is defined for wording only; it does not change the statistics."]
    else []

/-! ## The whole analysis -/

structure ExperimentAnalysis where
  config : ExperimentConfig
  runs : List RunOutcome
  baseline : GroupSummary
  treatment : GroupSummary
  effect : EffectEstimate
  paired : Option PairedReport
  noise : NoiseAssessment
  classification : ExperimentResult
  validity : ExperimentValidity
  validityReasons : List String
  summaryLines : List String
  confounders : List Confounder
  secondary : List SecondaryComparison
  caveats : List String

/-- A confounder that no difference can be told from. -/
def Confounder.critical (c : Confounder) : Bool :=
  c.state = .changed ∧ c.key ∈ ["power_source", "battery_state"]

def caveatLines (config : ExperimentConfig) (confounders : List Confounder)
    (invalidRuns missingPrimary : Nat) (paired : Option PairedReport) : List String :=
  ((confounders.filter fun c => c.state ≠ .controlled).map fun c =>
      s!"{c.label}: {c.state.asStr} ({c.evidence})") ++
    (if 0 < invalidRuns then
      [s!"{invalidRuns} included run(s) failed quality validation and may bias the result."]
    else []) ++
    (if 0 < missingPrimary then
      [s!"{missingPrimary} included run(s) have no {config.primaryLabel}. The primary metric was not switched."]
    else []) ++
    ((paired.filter fun p => p.usablePairs < p.pairs.length).toList.map fun p =>
      s!"Only {p.usablePairs} of {p.pairs.length} paired run(s) have both sides; the rest are reported but not paired.")

/-- Compare the groups over outcomes that are already there. -/
def analyzeOutcomes (outcomes : List RunOutcome) (config : ExperimentConfig) :
    ExperimentAnalysis :=
  let baseline := summarize .baseline outcomes
  let treatment := summarize .treatment outcomes
  let confounders := confounders outcomes
  let paired := if config.pairing = .paired then some (pairedReport outcomes) else none
  let invalidRuns := (outcomes.filter fun o => o.included && !o.validation.valid).length
  let missingPrimary := (outcomes.filter fun o => o.included && o.primaryValue.isNone).length
  let noise := noiseAssessment baseline treatment paired
  let effect := effectEstimate baseline treatment noise paired config
    (groupValues outcomes .baseline) (groupValues outcomes .treatment)
  let verdict := classify baseline treatment effect noise paired
    (confounders.any Confounder.critical) invalidRuns missingPrimary
  { config
    runs := outcomes
    baseline
    treatment
    effect
    paired
    noise
    classification := verdict.result
    validity := verdict.validity
    validityReasons := verdict.reasons
    summaryLines := summaryLines config baseline treatment effect noise paired verdict.result
    confounders
    secondary := secondaryComparison outcomes config.primaryMetric
    caveats := caveatLines config confounders invalidRuns missingPrimary paired }

end PowerForensics.Experiment
