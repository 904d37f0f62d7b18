import Mathlib.Data.String.Basic
import PowerForensics.Core.AnalyzeMetrics

/-! # The comparison of two ranges

Each side is a session with a range, and is analysed for itself. The comparison asks how far
the evidence can be compared at all, for the whole of it and for each metric, and then takes
differences, weighs them against the spread of both sides and ranks them.
-/

namespace PowerForensics.Compare

open Analyze Session Json

/-! ## Sides -/

/-- A session with a range of it; without bounds, with all of it. -/
structure ComparisonInput where
  session : SessionData
  intervalMs : UInt64
  fromMs : Option UInt64
  toMs : Option UInt64

def ComparisonInput.resolvedRange (input : ComparisonInput) : UInt64 × UInt64 :=
  let span := sessionSpanMs input.session
  let lo := input.fromMs.getD span.1
  let hi := input.toMs.getD span.2
  (min lo hi, max lo hi)

/-- What a comparison takes from one side. -/
structure ComparisonSide where
  session : SessionData
  fromMs : UInt64
  toMs : UInt64
  coverage : Option Binary64
  energy : RangeEnergy Binary64
  domains : List DomainStat
  series : List MetricSeries
  context : RangeContext

def ComparisonInput.side (input : ComparisonInput) : ComparisonSide :=
  let range := input.resolvedRange
  let analysis := analyzeRange input.session input.intervalMs range.1 range.2
  { session := input.session
    fromMs := analysis.fromMs
    toMs := analysis.toMs
    coverage := analysis.coverage
    energy := analysis.energy
    domains := analysis.domains
    series := metricSeries input.session
    context := rangeContext input.session range.1 range.2 }

/-! ## Comparability -/

inductive ComparabilityLevel where
  | compatible
  | compatibleWithCaveats
  | weak
  | notComparable
  deriving DecidableEq

namespace ComparabilityLevel

def rank : ComparabilityLevel → Nat
  | compatible => 0
  | compatibleWithCaveats => 1
  | weak => 2
  | notComparable => 3

/-- The less comparable one. -/
def max (level other : ComparabilityLevel) : ComparabilityLevel :=
  if other.rank ≤ level.rank then level else other

end ComparabilityLevel

/-- A finding about a metric, or about the whole comparison. -/
structure ComparabilityFinding where
  metric : Option String
  level : ComparabilityLevel
  reason : String

structure Comparability where
  overall : ComparabilityLevel
  findings : List ComparabilityFinding

/-! ## Reliability -/

inductive ReliabilityLevel where
  | distinguishable
  | weakEvidence
  | withinNoise
  | insufficient
  deriving DecidableEq

structure Reliability where
  level : ReliabilityLevel
  note : String
  noiseFloor : Option Binary64
  effectSize : Option Binary64

structure ReliabilityInput where
  effectiveN : Nat
  known : Nat
  spread : Option Binary64
  coverage : Option Binary64

def fixedText (places : Nat) (x : Binary64) : String := .ofList (x.fixed places)

def percentText (x : Binary64) : String := fixedText 0 (x * 100.0) ++ "%"

def knownPercent (x : Option Binary64) : String := (x.map percentText).getD "unknown"

def spreadOf (stat : Stat) : Option Binary64 :=
  match stat.p10, stat.p90 with
  | some a, some b => some (b - a).abs
  | _, _ => none

def reliabilityInput (m : Option MetricSeries) (fromMs toMs : UInt64) : ReliabilityInput :=
  match m with
  | none => ⟨0, 0, none, none⟩
  | some m =>
      let window := windowSamples m fromMs toMs
      let vals := window.filterMap Sample.value
      let stat := Stat.of window
      { effectiveN := Analyze.effectiveN vals.length (uniqueCount vals) (lag1Autocorr vals).abs
        known := vals.length
        spread := spreadOf stat
        coverage := stat.coverage }

def weakCoverage : Binary64 := 0.5
def lowCoverage : Binary64 := 0.7
def minEffectiveN : Nat := 5

/-- The smaller coverage, if both are known. -/
def jointCoverage (ra rb : ReliabilityInput) : Option Binary64 :=
  match ra.coverage, rb.coverage with
  | some x, some y => some (min x y)
  | _, _ => none

/-- The larger spread of those that are known. -/
def jointSpread (ra rb : ReliabilityInput) : Option Binary64 :=
  match ra.spread, rb.spread with
  | some x, some y => some (Max.max x y)
  | some x, none => some x
  | none, some y => some y
  | none, none => none

def effectSizeOf (delta spread : Option Binary64) : Option Binary64 :=
  match delta, spread with
  | some d, some s => if (0.0 : Binary64) < s then some (d.abs / s) else none
  | _, _ => none

def reliability (definition : HeadlineDef) (delta : Option Binary64) (ra rb : ReliabilityInput) :
    Reliability :=
  let eff := min ra.effectiveN rb.effectiveN
  let coverage := jointCoverage ra rb
  let spread := jointSpread ra rb
  let noise := Max.max definition.thresholdAbs (spread.getD 0.0)
  let effectSize := effectSizeOf delta spread
  match delta with
  | none => ⟨.insufficient, "missing median on at least one side", some noise, effectSize⟩
  | some delta =>
      if eff < minEffectiveN ∨ coverage.any (· < weakCoverage) then
        ⟨.insufficient,
          s!"effective n {eff} (min {minEffectiveN}), coverage {knownPercent coverage}",
          some noise, effectSize⟩
      else if delta.abs < noise then
        ⟨.withinNoise, s!"|delta| {fixedText 3 delta.abs} is within the measured noise floor " ++
          fixedText 3 noise, some noise, effectSize⟩
      else if eff < 10 then
        ⟨.weakEvidence, s!"difference exceeds the noise floor but rests on effective n {eff}",
          some noise, effectSize⟩
      else
        ⟨.distinguishable, s!"difference exceeds the noise floor with effective n {eff}",
          some noise, effectSize⟩

/-! ## Metrics -/

inductive Direction where
  | increased
  | decreased
  | unchanged
  | unavailable
  | missingA
  | missingB
  deriving DecidableEq

structure MetricComparison where
  metric : String
  label : String
  domain : String
  unit : String
  a : Option Binary64
  b : Option Binary64
  absoluteDelta : Option Binary64
  relativeDelta : Option Binary64
  direction : Direction
  sampleCountA : Nat
  sampleCountB : Nat
  coverageA : Option Binary64
  coverageB : Option Binary64
  provenanceA : Provenance
  provenanceB : Provenance
  comparability : ComparabilityLevel
  comparabilityReason : String
  evidence : String
  reliability : Reliability

def findMetric (domains : List DomainStat) (key : String) : Option MetricStat :=
  (domains.flatMap DomainStat.metrics).find? fun m => m.key = key

def evidenceLine (pa pb : Provenance) : String :=
  if pa = pb then s!"{pa.asStr} on both sides" else s!"{pa.asStr} on A, {pb.asStr} on B"

/-- The samples of a metric that have a value. -/
def knownOf (m : Option MetricStat) : Nat := (m.map fun m => m.stat.known).getD 0

def medianOf (m : Option MetricStat) : Option Binary64 := m.bind fun m => m.stat.median

def coverageLevel (ma mb : Option MetricStat) : ComparabilityLevel × String :=
  match ma.bind fun m => m.stat.coverage, mb.bind fun m => m.stat.coverage with
  | some x, some y =>
      if x < weakCoverage ∨ y < weakCoverage then
        (.weak, s!"weak sample coverage in range (A {percentText x}, B {percentText y})")
      else if x < lowCoverage ∨ y < lowCoverage then
        (.compatibleWithCaveats,
          s!"partial sample coverage in range (A {percentText x}, B {percentText y})")
      else (.compatible, "comparable evidence on both sides")
  | _, _ => (.compatible, "comparable evidence on both sides")

def powerSourceMismatch (a b : RangeContext) : Bool :=
  match a.powerSource, b.powerSource with
  | some x, some y => x ≠ y
  | _, _ => false

def charging (s : ComparisonSide) : Bool := s.energy.chargePresent && !s.energy.dischargePresent
def discharging (s : ComparisonSide) : Bool := s.energy.dischargePresent && !s.energy.chargePresent

/-- One side was charging while the other one was discharging. -/
def chargeMismatch (key : String) (a b : ComparisonSide) : Bool :=
  key = "battery_discharge_w" && (charging a && discharging b || discharging a && charging b)

def isPower (definition : HeadlineDef) : Bool :=
  definition.domain = "power" || definition.domain = "battery"

/-- The difference of two medians that are there. -/
def deltaOf (a b : Option Binary64) : Option Binary64 := a.bind fun x => b.map fun y => y - x

/-- How far a metric can be compared, and why. -/
def metricComparability (definition : HeadlineDef) (label : String) (a b : ComparisonSide)
    (ma mb : Option MetricStat) : ComparabilityLevel × String :=
  if knownOf ma = 0 ∧ knownOf mb = 0 then (.notComparable, "no evidence on either side")
  else if isPower definition ∧ powerSourceMismatch a.context b.context then
    (.notComparable,
      "different power source (AC vs battery) makes power/battery deltas incomparable")
  else if isPower definition ∧ chargeMismatch definition.key a b then
    (.notComparable,
      "one side was charging while the other was discharging; discharge power is not comparable")
  else if knownOf ma = 0 then (.notComparable, s!"missing evidence in A for {label}")
  else if knownOf mb = 0 then (.notComparable, s!"missing evidence in B for {label}")
  else coverageLevel ma mb

def directionOf (definition : HeadlineDef) (delta : Option Binary64) (aKnown bKnown : Nat) :
    Direction :=
  if aKnown = 0 ∧ bKnown = 0 then .unavailable
  else if aKnown = 0 then .missingA
  else if bKnown = 0 then .missingB
  else
    match delta with
    | some d =>
        if d.abs < definition.thresholdAbs then .unchanged
        else if (0.0 : Binary64) < d then .increased
        else .decreased
    | none => .unavailable

/-- Never against a base next to zero. -/
def relativeTo (definition : HeadlineDef) (base delta : Option Binary64) : Option Binary64 :=
  match delta, base with
  | some d, some base =>
      if definition.relativeSuitable ∧ definition.thresholdAbs ≤ base.abs then some (d / base)
      else none
  | _, _ => none

def compareMetric (definition : HeadlineDef) (a b : ComparisonSide) (ma mb : Option MetricStat)
    (ra rb : ReliabilityInput) : MetricComparison :=
  let label := ((ma.or mb).map MetricStat.label).getD definition.key
  let provenanceA := (ma.map MetricStat.provenance).getD .unavailable
  let provenanceB := (mb.map MetricStat.provenance).getD .unavailable
  let delta := deltaOf (medianOf ma) (medianOf mb)
  let comparability := metricComparability definition label a b ma mb
  { metric := definition.key
    label
    domain := definition.domain
    unit := definition.unit
    a := medianOf ma
    b := medianOf mb
    absoluteDelta := delta
    relativeDelta := relativeTo definition (medianOf ma) delta
    direction := directionOf definition delta (knownOf ma) (knownOf mb)
    sampleCountA := ra.known
    sampleCountB := rb.known
    coverageA := ra.coverage
    coverageB := rb.coverage
    provenanceA
    provenanceB
    comparability := comparability.1
    comparabilityReason := comparability.2
    evidence := evidenceLine provenanceA provenanceB
    reliability :=
      if comparability.1 = .notComparable then
        ⟨.insufficient, "no defensible comparison for this metric", none, none⟩
      else reliability definition delta ra rb }

/-- A metric of which neither side has a value is left out. -/
def headlineMetric (a b : ComparisonSide) (definition : HeadlineDef) : Option MetricComparison :=
  let ma := findMetric a.domains definition.key
  let mb := findMetric b.domains definition.key
  if knownOf ma = 0 ∧ knownOf mb = 0 then none
  else
    some (compareMetric definition a b ma mb
      (reliabilityInput (a.series.find? fun m => m.key = definition.key) a.fromMs a.toMs)
      (reliabilityInput (b.series.find? fun m => m.key = definition.key) b.fromMs b.toMs))

/-! ## Findings -/

def observedCollectors (s : SessionData) : List String :=
  [("battery", s.battery.isEmpty), ("cpu", s.cpu.isEmpty), ("gpu", s.gpu.isEmpty),
    ("proc", s.procs.isEmpty), ("display", s.display.isEmpty), ("net", s.net.isEmpty),
    ("storage", s.storage.isEmpty), ("usb", s.usb.isEmpty), ("self", s.selfmon.isEmpty),
    ("os_power", s.policyHistory.isEmpty)].filterMap fun c => if c.2 then none else some c.1

def joinOr (items : List String) : String :=
  if items = [] then "none" else ", ".intercalate items

/-- What the footer of a session says about its recovery. -/
def sessionRecovered (s : SessionData) : Option Bool :=
  s.footer.bind fun footer =>
    (footer.boolAt "recovered").or ((footer.get "summary").bind fun sum => sum.boolAt "recovered")

def durationSecs (side : ComparisonSide) : Binary64 :=
  .ofNat (side.toMs.toNat - side.fromMs.toNat) / 1000.0

/-- How many times as large as the smaller one the larger one is. -/
def ratioOf (x y : Binary64) : Binary64 := Max.max (x / y) (y / x)

def collectorFinding (a b : ComparisonSide) : List ComparabilityFinding :=
  let observedA := observedCollectors a.session
  let observedB := observedCollectors b.session
  if observedA ≠ observedB then
    [⟨none, .compatibleWithCaveats,
      s!"different collectors recorded (A: {joinOr observedA}; B: {joinOr observedB})"⟩]
  else []

def coverageFinding (a b : ComparisonSide) : List ComparabilityFinding :=
  if a.coverage.any (· < weakCoverage) ∨ b.coverage.any (· < weakCoverage) then
    [⟨none, .weak,
      s!"low discharge coverage (A {knownPercent a.coverage}, B {knownPercent b.coverage})"⟩]
  else []

def cadenceFinding (a b : ComparisonSide) : List ComparabilityFinding :=
  match a.context.effectiveCadenceMs, b.context.effectiveCadenceMs with
  | some ca, some cb =>
      if (0.0 : Binary64) < ca ∧ (0.0 : Binary64) < cb ∧ (3.0 : Binary64) < ratioOf ca cb then
        [⟨none, .compatibleWithCaveats,
          s!"effective cadence differs by {fixedText 1 (ratioOf ca cb)}x " ++
            s!"(A {fixedText 0 ca} ms, B {fixedText 0 cb} ms)"⟩]
      else []
  | _, _ => []

def sourceFinding (a b : ComparisonSide) : List ComparabilityFinding :=
  match a.context.powerSource, b.context.powerSource with
  | some sa, some sb =>
      if sa ≠ sb then
        [⟨some "battery_discharge_w", .notComparable,
          s!"different power source (A {sa}, B {sb}); power/battery metrics are not comparable"⟩]
      else []
  | _, _ => []

def durationFinding (a b : ComparisonSide) : List ComparabilityFinding :=
  let durA := durationSecs a
  let durB := durationSecs b
  if (0.0 : Binary64) < durA ∧ (0.0 : Binary64) < durB ∧ (1.5 : Binary64) < ratioOf durA durB then
    [⟨none, .compatibleWithCaveats,
      s!"durations differ substantially ({fixedText 0 durA}s vs {fixedText 0 durB}s, " ++
        s!"{fixedText 1 (ratioOf durA durB)}x)"⟩]
  else []

def recoveredText (which : String) : String :=
  s!"session {which} was recovered; recording does not contain a clean footer"

/-- The footer of the first side is asked before that of the second one. -/
def recoveredFinding (a b : ComparisonSide) : List ComparabilityFinding :=
  match (sessionRecovered a.session).or (sessionRecovered b.session) with
  | some recovered =>
      let which := if (sessionRecovered a.session).isSome then "A" else "B"
      if recovered then [⟨none, .compatibleWithCaveats, recoveredText which⟩] else []
  | none => []

def comparisonFindings (a b : ComparisonSide) : List ComparabilityFinding :=
  collectorFinding a b ++ coverageFinding a b ++ cadenceFinding a b ++ sourceFinding a b ++
    durationFinding a b ++ recoveredFinding a b

def metricFinding (m : MetricComparison) : ComparabilityFinding :=
  ⟨some m.metric, m.comparability, m.comparabilityReason⟩

/-- The worst findings first. -/
def findingOrder (x y : ComparabilityFinding) : Ordering :=
  (compare y.level.rank x.level.rank).then (compare x.reason y.reason)

/-! ## Ranking -/

structure RankedDifference where
  metric : String
  label : String
  domain : String
  unit : String
  delta : Binary64
  relativeDelta : Option Binary64
  direction : Direction
  /-- The magnitude of the difference in units of the noise floor. -/
  relevance : Binary64
  comparability : ComparabilityLevel
  reliability : ReliabilityLevel
  basis : String

def rankedDifference (m : MetricComparison) : RankedDifference :=
  let delta := m.absoluteDelta.getD 0.0
  let noise := Max.max (m.reliability.noiseFloor.getD 0.0) 1e-9
  { metric := m.metric
    label := m.label
    domain := m.domain
    unit := m.unit
    delta
    relativeDelta := m.relativeDelta
    direction := m.direction
    relevance := delta.abs / noise
    comparability := m.comparability
    reliability := m.reliability.level
    basis := m.evidence }

/-- A metric whose difference can be ranked. -/
def rankable (m : MetricComparison) : Bool :=
  m.comparability ≠ .notComparable && m.reliability.level ≠ .insufficient && m.absoluteDelta.isSome

/-- The most relevant differences first. -/
def rankOrder (x y : RankedDifference) : Ordering :=
  ((y.relevance.totalCmp x.relevance).then (y.delta.abs.totalCmp x.delta.abs)).then
    (compare x.label y.label)

def rankedChanges (metrics : List MetricComparison) : List RankedDifference :=
  ((metrics.filter rankable).map rankedDifference).insertionSort fun x y => rankOrder x y ≠ .gt

/-! ## The whole comparison -/

structure ComparisonAnalysis where
  a : ComparisonSide
  b : ComparisonSide
  comparability : Comparability
  headlineMetrics : List MetricComparison
  rankedChanges : List RankedDifference

/-- The level of a comparison, by its findings and its metrics. -/
def overallLevel (findings : List ComparabilityFinding) (metrics : List MetricComparison) :
    ComparabilityLevel :=
  if metrics ≠ [] ∧ metrics.all (·.comparability = .notComparable) then .notComparable
  else (findings.map ComparabilityFinding.level).foldl .max .compatible

def build (a b : ComparisonSide) : ComparisonAnalysis :=
  let metrics := headline.filterMap (headlineMetric a b)
  let findings := comparisonFindings a b ++ metrics.map metricFinding
  let listed := findings.filter fun f => f.metric.isNone || f.level ≠ .compatible
  { a
    b
    comparability :=
      ⟨overallLevel findings metrics, listed.insertionSort fun x y => findingOrder x y ≠ .gt⟩
    headlineMetrics := metrics
    rankedChanges := rankedChanges metrics }

def compareRanges (a b : ComparisonInput) : ComparisonAnalysis := build a.side b.side

end PowerForensics.Compare
