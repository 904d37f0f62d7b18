import PowerForensics.Core.Analyze
import PowerForensics.Core.Compare
import PowerForensics.System.Distinct

/-! # Metrics of a range

The curated metrics of a session as series of samples, what a range of them amounts to, and
the context that a range was recorded under. A reading that is absent is counted and never
replaced by a zero.
-/

namespace PowerForensics.Analyze

open Stats Session Compare Distinct

/-! ## Samples -/

/-- A reading of a metric on the wall clock. -/
structure Sample where
  wallMs : UInt64
  value : Option Binary64
  provenance : Provenance

def sample (s : SessionData) (t : Telemetry Binary64) (monoS : Binary64) : Sample :=
  ⟨wallOf s t monoS, t.val, t.value.provenance⟩

/-- The median and the range of the values that are known. -/
structure Stat where
  /-- Samples with a value and without one. -/
  n : Nat
  known : Nat
  median : Option Binary64
  min : Option Binary64
  max : Option Binary64
  p10 : Option Binary64
  p90 : Option Binary64

def Stat.of (samples : List Sample) : Stat :=
  let vals := samples.filterMap Sample.value
  if vals = [] then ⟨samples.length, 0, none, none, none, none, none⟩
  else
    { n := samples.length
      known := vals.length
      median := percentileSorted vals 50.0
      min := some (vals.foldl Min.min (.infinity false))
      max := some (vals.foldl Max.max (.infinity true))
      p10 := percentileSorted vals 10.0
      p90 := percentileSorted vals 90.0 }

/-- The share of the samples that have a value. -/
def Stat.coverage (stat : Stat) : Option Binary64 :=
  if stat.n = 0 then none else some (.ofNat stat.known / .ofNat stat.n)

/-- A metric with the samples that feed it. -/
structure MetricSeries where
  domain : String
  key : String
  label : String
  unit : String
  samples : List Sample

/-- The metrics that the analysis knows, in their order. -/
def metricSeries (s : SessionData) : List MetricSeries :=
  [⟨"power", "battery_discharge_w", "Battery discharge", "W",
      s.battery.map fun p => sample s p.discharge p.t⟩,
    ⟨"power", "battery_charge_w", "Battery charge", "W",
      s.battery.map fun p => sample s p.charge p.t⟩,
    ⟨"battery", "battery_pct", "Battery charge", "%", s.battery.map fun p => sample s p.pct p.t⟩,
    ⟨"cpu", "cpu_utility_pct", "CPU utility", "%", s.cpu.map fun p => sample s p.utility p.t⟩,
    ⟨"cpu", "cpu_pkg_power_w", "CPU package (measured)", "W",
      s.cpu.map fun p => sample s p.pkgPowerW p.t⟩,
    ⟨"cpu", "cpu_pkg_derived_w", "CPU package (derived)", "W",
      s.cpu.map fun p => sample s p.pkgDerivedW p.t⟩,
    ⟨"cpu", "cpu_c3_pct", "Processor C3", "%", s.cpu.map fun p => sample s p.c3Pct p.t⟩,
    ⟨"gpu", "gpu_util_pct", "GPU utilization", "%",
      s.gpu.map fun p =>
        match p.adapters.head? with
        | some a => sample s a.totalUtil p.t
        | none => ⟨monoWall s p.t, none, .unavailable⟩⟩,
    ⟨"display", "display_brightness_pct", "Display brightness", "%",
      s.display.map fun p => sample s p.brightness p.t⟩,
    ⟨"display", "display_refresh_hz", "Refresh rate", "Hz",
      s.display.map fun p =>
        ⟨monoWall s p.t, (p.displays.head?.bind DisplayEntry.freqHz).map fun x => .ofNat x.toNat,
          .measured⟩⟩,
    ⟨"network", "net_rx_bps", "Network RX", "B/s", s.net.map fun p => sample s p.totalRx p.t⟩,
    ⟨"network", "net_tx_bps", "Network TX", "B/s", s.net.map fun p => sample s p.totalTx p.t⟩,
    ⟨"storage", "storage_disk_time_pct", "Disk activity", "%",
      s.storage.map fun p => sample s p.diskTime p.t⟩,
    ⟨"storage", "storage_read_bps", "Disk read", "B/s",
      s.storage.map fun p => sample s p.readBps p.t⟩,
    ⟨"storage", "storage_write_bps", "Disk write", "B/s",
      s.storage.map fun p => sample s p.writeBps p.t⟩]

def windowSamples (m : MetricSeries) (fromMs toMs : UInt64) : List Sample :=
  m.samples.filter fun p => fromMs ≤ p.wallMs && p.wallMs ≤ toMs

/-! ## Domains -/

structure MetricStat where
  key : String
  label : String
  unit : String
  stat : Stat
  provenance : Provenance

structure DomainStat where
  domain : String
  metrics : List MetricStat
  /-- A metric has a value in the range. -/
  available : Bool

/-- The provenance of most samples; the better one of as many. -/
def dominantProvenance (samples : List Sample) : Provenance :=
  let measured := samples.countP fun p => p.provenance = .measured
  let derived := samples.countP fun p => p.provenance = .derived
  let estimated := samples.countP fun p => p.provenance = .estimated
  if derived ≤ measured ∧ estimated ≤ measured ∧ 0 < measured then .measured
  else if estimated ≤ derived ∧ 0 < derived then .derived
  else if 0 < estimated then .estimated
  else .unavailable

def metricStat (fromMs toMs : UInt64) (m : MetricSeries) : MetricStat :=
  let window := windowSamples m fromMs toMs
  ⟨m.key, m.label, m.unit, .of window, dominantProvenance window⟩

def domainBreakdown (s : SessionData) (fromMs toMs : UInt64) : List DomainStat :=
  ["power", "battery", "cpu", "gpu", "display", "network", "storage"].map fun domain =>
    let metrics := ((metricSeries s).filter fun m => m.domain = domain).map (metricStat fromMs toMs)
    ⟨domain, metrics, metrics.any fun m => 0 < m.stat.known⟩

/-! ## Independent samples -/

/-- The correlation of a series with itself one sample later. -/
def lag1Autocorr (vals : List Binary64) : Binary64 :=
  let n := vals.length
  if n < 3 then 0.0
  else
    let mean := vals.foldl (· + ·) (.zero true) / .ofNat n
    let denom := vals.foldl (fun denom v => denom + (v - mean) * (v - mean)) 0.0
    if denom.isNaN ∨ denom ≤ 0.0 then 0.0
    else
      let numer := (List.range (n - 1)).foldl (fun numer i =>
        numer + (at_ vals i - mean) * (at_ vals (i + 1) - mean)) 0.0
      (numer / denom).clamp (-1.0) 1.0

/-- The number of samples that count as independent, by their correlation and by how many
of them are distinct. -/
def effectiveN (n unique : Nat) (rho : Binary64) : Nat :=
  if n < 2 then n
  else
    let rho := rho.clamp (-0.9) 0.99
    let raw := .ofNat n * (1.0 - rho) / (1.0 + rho)
    let eff := Min.min (Min.min raw (.ofNat unique)) (.ofNat n)
    ((eff.clamp 1.0 (.ofNat n)).round).toUnsigned 64

/-- The number of values that differ by a hundredth. -/
def uniqueCount (vals : List Binary64) : Nat :=
  (sortedDistinct (vals.map fun v => (v * 100.0).round.toSigned 64)).length

/-! ## The span of a session -/

def sessionEndWall (s : SessionData) : Option UInt64 :=
  let walls := (s.battery.map fun p => wallOf s p.discharge p.t) ++
    (s.cpu.map fun p => wallOf s p.utility p.t) ++ (s.procs.map fun p => monoWall s p.t) ++
    (s.display.map fun p => wallOf s p.brightness p.t) ++
    (s.net.map fun p => wallOf s p.totalRx p.t) ++ (s.storage.map fun p => wallOf s p.diskTime p.t)
  if walls = [] then none else some (walls.foldl max 0)

def sessionSpanMs (s : SessionData) : UInt64 × UInt64 :=
  let start := s.wallBaseMs
  (start, max ((sessionEndWall s).getD start) start)

/-! ## The context of a range -/

section Context

variable (s : SessionData) (fromMs toMs : UInt64)

def inWindow (wall : UInt64) : Bool := fromMs ≤ wall && wall ≤ toMs

def policyLastWindow : Option String :=
  (s.policyHistory.reverse.find? fun p => inWindow fromMs toMs (monoWall s p.1)).bind fun p =>
    p.2.schemeName

def acLastWindow : Option String := do
  let p ← s.batteryExtra.reverse.find? fun p => inWindow fromMs toMs (wallOf s p.ac p.t)
  let v ← p.ac.val
  return if (0.5 : Binary64) ≤ v then "AC" else "battery"

def refreshLastWindow : Option String := do
  let p ← s.display.reverse.find? fun p => inWindow fromMs toMs (monoWall s p.t)
  let d ← p.displays.head?
  let hz ← d.freqHz
  return s!"{hz.toNat} Hz"

/-- The median of the times between battery readings. -/
def effectiveCadenceMs : Option Binary64 :=
  let ts := (s.battery.filter fun p => inWindow fromMs toMs (wallOf s p.discharge p.t)).map
    BatteryPoint.t
  if ts.length < 2 then none
  else
    let d := ((ts.zip ts.tail).map fun w => w.2 - w.1).insertionSort fun a b =>
      a.totalRank ≤ b.totalRank
    d[d.length / 2]?.map fun x => x * 1000.0

def rangeContext : RangeContext where
  powerScheme := policyLastWindow s fromMs toMs
  powerSource := acLastWindow s fromMs toMs
  refreshHz := refreshLastWindow s fromMs toMs
  displayCount :=
    (s.display.reverse.find? fun p => inWindow fromMs toMs (monoWall s p.t)).map fun p =>
      p.displays.length
  gpuAdapters :=
    ((s.gpu.reverse.find? fun p => inWindow fromMs toMs (monoWall s p.t)).map fun p =>
      p.adapters.map GpuAdapterPoint.name).getD []
  effectiveCadenceMs := effectiveCadenceMs s fromMs toMs

end Context

/-! ## The analysis of a range -/

/-- The share of the observed time of a range that is covered. -/
def rangeCoverage (energy : RangeEnergy Binary64) : Option Binary64 :=
  let denom := energy.coveredS + energy.unknownS
  if energy.coveredS > 0.0 ∧ denom > 0.0 then some (energy.coveredS / denom) else none

/-- What a comparison takes from the analysis of a range. -/
structure RangeAnalysis where
  fromMs : UInt64
  toMs : UInt64
  coverage : Option Binary64
  energy : RangeEnergy Binary64
  domains : List DomainStat

def analyzeRange (s : SessionData) (intervalMs fromMs toMs : UInt64) : RangeAnalysis :=
  let lo := min fromMs toMs
  let hi := max toMs fromMs
  let energy := rangeEnergy s intervalMs lo hi
  ⟨lo, hi, rangeCoverage energy, energy, domainBreakdown s lo hi⟩

end PowerForensics.Analyze
