import PowerForensics.Core.CompareRanges
import PowerForensics.Core.Experiment
import PowerForensics.System.Merging
import PowerForensics.Text.Search

/-! # Runs reduced to outcomes

A run is a range of a session. Its outcome takes the primary metric and the quality of the range
from the analysis; what the run is called, and how it takes part in the experiment, only goes
along with them.
-/

namespace PowerForensics.Experiment

open Stats Session Analyze Compare Distinct Merging Search

/-! ## Quality of a range -/

section Quality

variable (s : SessionData) (fromMs toMs : UInt64)

/-- The wall times of the samples of every collector. -/
def collectorWalls : List (String × List UInt64) :=
  [("battery", s.battery.map fun p => wallOf s p.discharge p.t),
    ("cpu", s.cpu.map fun p => wallOf s p.utility p.t),
    ("gpu", s.gpu.map fun p => monoWall s p.t),
    ("display", s.display.map fun p => wallOf s p.brightness p.t),
    ("net", s.net.map fun p => wallOf s p.totalRx p.t),
    ("storage", s.storage.map fun p => wallOf s p.diskTime p.t),
    ("proc", s.procs.map fun p => monoWall s p.t),
    ("usb", s.usb.map fun p => monoWall s p.t),
    ("self", s.selfmon.map fun p => wallOf s p.cpuPct p.t),
    ("os_power", s.policyHistory.map fun p => monoWall s p.1)]

/-- The collectors with samples in the range. -/
def rangeCollectors : List String :=
  ((collectorWalls s).filter fun c => c.2.any (inWindow fromMs toMs)).map Prod.fst

def isTimeout (e : EventRec) : Bool :=
  let kind := e.kind.toList.map Char.toLower
  kind ≠ "marker".toList && (behind "timeout".toList kind).isSome

def timeoutCount : Nat :=
  (s.events.filter fun e => inWindow fromMs toMs e.wallMs).countP isTimeout

/-! ## Processes of a range -/

def processTicks : List ProcPoint :=
  s.procs.filter fun p => inWindow fromMs toMs (monoWall s p.t)

/-- Whether a snapshot of the range left something out; none if no snapshot says. -/
def processIncomplete : Option Bool :=
  let known := (processTicks s fromMs toMs).filter fun p =>
    p.inaccessible.isSome || p.truncated.isSome
  if known = [] then none
  else some (known.any fun p => 0 < p.inaccessible.getD 0 || p.truncated.getD false)

/-- The median of what a process has used. -/
def cpuMedian (entries : List ProcEntry) (pid : Nat) : Option Binary64 :=
  median ((entries.filter fun e => e.pid.toNat = pid).filterMap fun e => e.cpu.val)

/-- The names of the processes, the busiest first. -/
def processNames : List String :=
  let entries := (processTicks s fromMs toMs).flatMap ProcPoint.top
  let pids := sortedDistinct (entries.map fun e => e.pid.toNat)
  let busiest := stableSort
    (fun pid => -((cpuMedian entries pid).getD (.infinity true)).totalRank) pids
  busiest.filterMap fun pid => (entries.find? fun e => e.pid.toNat = pid).map ProcEntry.name

end Quality

/-! ## Validation -/

def shortRunS : Binary64 := 5.0

def coverageReasons : Option Binary64 → List String
  | some c =>
      if c < weakCoverage then [s!"low coverage {percentText c}"]
      else if c < lowCoverage then [s!"partial coverage {percentText c}"]
      else []
  | none => ["coverage could not be established"]

def validateRun (primaryPresent : Bool) (primaryKnown : Nat) (coverage : Option Binary64)
    (durationS : Binary64) (discontinuities timeouts : Nat) : RunValidation :=
  let findings :=
    (if primaryPresent = false ∨ primaryKnown = 0 then ["primary metric has no known samples"]
      else []) ++
    coverageReasons coverage ++
    (if durationS < shortRunS then [s!"very short run ({fixedText 0 durationS}s)"] else []) ++
    (if 0 < discontinuities then [s!"{discontinuities} clock discontinuity(ies)"] else []) ++
    (if 0 < timeouts then [s!"{timeouts} collector timeout(s)"] else [])
  let severe := primaryPresent = false ∨ primaryKnown = 0 ∨
    coverage.all (· < weakCoverage) ∨ durationS < shortRunS
  { status :=
      if severe then .invalid else if findings = [] then .accepted else .acceptedWithCaveats
    primaryPresent := primaryPresent && 0 < primaryKnown
    findings }

/-! ## Reduction -/

structure RunMeta where
  id : String
  label : String
  group : RunGroup
  order : Nat
  pairId : Option Nat
  included : Bool
  deriving DecidableEq

/-- The outcome of a run, and what is shown of the run besides. -/
structure ReducedRun where
  outcome : RunOutcome
  label : String
  order : Nat
  fromMs : UInt64
  toMs : UInt64
  primaryKnown : Nat
  timeouts : Nat
  processIncomplete : Option Bool
  deriving DecidableEq

def secondaryValue (domains : List DomainStat) (key : String) : SecondaryValue :=
  let m := findMetric domains key
  ⟨key, (m.map MetricStat.label).getD "", (m.map MetricStat.unit).getD "", medianOf m⟩

def reduceRun (run : RunMeta) (input : ComparisonInput) (config : ExperimentConfig) :
    ReducedRun :=
  let range := input.resolvedRange
  let s := input.session
  let analysis := analyzeRange s input.intervalMs range.1 range.2
  let context := rangeContext s range.1 range.2
  let durationS : Binary64 := .ofNat (range.2.toNat - range.1.toNat) / 1000.0
  let primary := findMetric analysis.domains config.primaryMetric
  let timeouts := timeoutCount s range.1 range.2
  { outcome :=
      { id := run.id
        group := run.group
        pairId := run.pairId
        included := run.included
        durationS
        primaryValue := medianOf primary
        coverage := analysis.coverage
        discontinuities := analysis.energy.discontinuities
        cadenceMs := context.effectiveCadenceMs
        context
        collectors := rangeCollectors s range.1 range.2
        processNames := processNames s range.1 range.2
        secondary := (curatedMetricKeys.filter (· ≠ config.primaryMetric)).map
          (secondaryValue analysis.domains)
        validation := validateRun (medianOf primary).isSome (knownOf primary) analysis.coverage
          durationS analysis.energy.discontinuities timeouts }
    label := run.label
    order := run.order
    fromMs := range.1
    toMs := range.2
    primaryKnown := knownOf primary
    timeouts
    processIncomplete := processIncomplete s range.1 range.2 }

/-- The outcome under the name, and with the part in the experiment, of a run. -/
def ReducedRun.withMeta (r : ReducedRun) (run : RunMeta) : ReducedRun :=
  { r with
    outcome :=
      { r.outcome with
        id := run.id
        group := run.group
        pairId := run.pairId
        included := run.included }
    label := run.label
    order := run.order }

/-- The outcome depends on the primary metric, and on the run only by what goes along. -/
theorem reduceRun_withMeta (run run' : RunMeta) (input : ComparisonInput)
    {config config' : ExperimentConfig} (hmetric : config.primaryMetric = config'.primaryMetric) :
    (reduceRun run input config).withMeta run' = reduceRun run' input config' := by
  simp only [reduceRun, ReducedRun.withMeta, hmetric]

end PowerForensics.Experiment
