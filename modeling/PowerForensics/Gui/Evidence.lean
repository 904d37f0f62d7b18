import PowerForensics.Core.Dashboard
import PowerForensics.Core.SessionLoader

/-! # Health of the collectors

What the evidence panel says about every collector of a loaded session: the wall time of its
last sample, whether that is older than the recorded cadence allows, and how many of its samples
failed. Some series carry a wall time of their own, the others only a time that is counted from
the first wall time of the session.
-/

namespace PowerForensics.Evidence

open Session Dashboard

/-! ## The view -/

structure CapabilityField where
  requiresAdmin : Bool
  elevationWouldHelp : Bool

structure CollectorCapability where
  name : String
  fields : List CapabilityField

structure CapabilityReport where
  collectors : List CollectorCapability

inductive Availability where
  | available
  | degraded
  | stale
  | unavailable
  deriving DecidableEq

structure CollectorState where
  name : String
  state : Availability
  reason : Option String
  lastSampleWallMs : Option UInt64
  samples : Nat
  failures : Nat
  observedHz : Option Binary64
  requiresAdmin : Bool
  elevationWouldHelp : Bool

def saturatingAdd (a b : UInt64) : UInt64 := UInt64.ofNat (min (a.toNat + b.toNat) (2 ^ 64 - 1))

def saturatingMul (a b : UInt64) : UInt64 := UInt64.ofNat (min (a.toNat * b.toNat) (2 ^ 64 - 1))

/-- Wall time of a sample that only carries seconds of the monotonic clock. -/
def monoWall (s : SessionData) (t : Binary64) : UInt64 :=
  saturatingAdd s.wallBaseMs (asU64 (t * 1000.0))

def staleAfterMs (baseIntervalMs : UInt64) : UInt64 :=
  max (saturatingAdd (saturatingMul baseIntervalMs 3) 2000) 3000

def capabilityAdmin (caps : CapabilityReport) (name : String) : Bool × Bool :=
  match caps.collectors.find? (·.name = name) with
  | none => (false, false)
  | some c => (c.fields.any (·.requiresAdmin), c.fields.any (·.elevationWouldHelp))

def lastWalls (s : SessionData) : List (String × Option UInt64) :=
  [("battery", s.battery.getLast?.map fun p => p.discharge.stamp.wallMillis),
    ("cpu", s.cpu.getLast?.map fun p => p.utility.stamp.wallMillis),
    ("gpu", s.gpu.getLast?.map fun p => monoWall s p.t),
    ("proc", s.procs.getLast?.map fun p => monoWall s p.t),
    ("display", s.display.getLast?.map fun p => p.brightness.stamp.wallMillis),
    ("net", s.net.getLast?.map fun p => p.totalRx.stamp.wallMillis),
    ("storage", s.storage.getLast?.map fun p => p.diskTime.stamp.wallMillis),
    ("usb", s.usb.getLast?.map fun p => monoWall s p.t),
    ("self", s.selfmon.getLast?.map fun p => p.cpuPct.stamp.wallMillis),
    ("os_power", s.policyHistory.getLast?.map fun p => monoWall s p.1)]

/-- What a view is taken with: the collectors that the index discovered, the cadence, the
privileges and the time that ages are counted from. -/
structure Viewing where
  observed : Option (List String)
  baseIntervalMs : UInt64
  caps : CapabilityReport
  referenceWallMs : UInt64
  /-- The clock, which stands in for a reference time of zero. -/
  nowWallMs : UInt64

namespace Viewing

variable (w : Viewing)

def now : UInt64 := if 0 < w.referenceWallMs then w.referenceWallMs else w.nowWallMs

def present (name : String) : Option Bool := w.observed.map (·.any (· = name))

/-- A last sample that is older than the cadence allows. -/
def aged (last : Option UInt64) : Bool :=
  last.any fun wall =>
    staleAfterMs w.baseIntervalMs < if wall ≤ w.now then w.now - wall else 0

/-- The state of a collector, and why it is not available. -/
def health (name : String) (samples failures : Nat) (last : Option UInt64) :
    Availability × Option String :=
  if w.present name = some false then (.unavailable, some "not present in this recording")
  else if samples = 0 then
    if w.present name = some true then (.stale, some "not sampled in the observed window")
    else (.unavailable, some "no samples in the observed window")
  else if samples ≤ failures then (.unavailable, some "every sample in the window failed")
  else if w.aged last then (.stale, some "last sample is older than the expected cadence")
  else if 0 < failures then (.degraded, some s!"{failures} of {samples} samples unavailable")
  else (.available, none)

def collectorState (s : SessionData) (name : String) (last : Option UInt64) : CollectorState :=
  let f := (freshness s).find? (·.name = name)
  let samples := (f.map (·.samples)).getD 0
  let failures := (f.map (·.failures)).getD 0
  let (state, reason) := w.health name samples failures last
  { name, state, reason
    lastSampleWallMs := last.filter (0 < ·)
    samples, failures
    observedHz := (f.map (·.observedHz)).filter (0 < ·)
    requiresAdmin := (capabilityAdmin w.caps name).1
    elevationWouldHelp := (capabilityAdmin w.caps name).2 }

def collectorsView (s : SessionData) : List CollectorState :=
  (lastWalls s).map fun (name, last) => w.collectorState s name last

end Viewing

/-! ## Samples -/

inductive Collector where
  | battery
  | cpu
  | gpu
  | proc
  | display
  | net
  | storage
  | usb
  | self
  | osPower
  deriving DecidableEq

namespace Collector

def all : List Collector := [battery, cpu, gpu, proc, display, net, storage, usb, self, osPower]

def name : Collector → String
  | battery => "battery"
  | cpu => "cpu"
  | gpu => "gpu"
  | proc => "proc"
  | display => "display"
  | net => "net"
  | storage => "storage"
  | usb => "usb"
  | self => "self"
  | osPower => "os_power"

end Collector

/-- What the wall time of a sample is taken from. -/
inductive Clock where
  | own (wallMs : UInt64)
  | offset (t : Binary64)
  deriving DecidableEq

/-- The wall time in a session that starts at the given one. -/
def Clock.wall (baseMs : UInt64) : Clock → UInt64
  | own wallMs => wallMs
  | offset t => saturatingAdd baseMs (asU64 (t * 1000.0))

structure Sample where
  clock : Clock
  failed : Bool
  deriving DecidableEq

/-- The samples of a collector in the order they were loaded. -/
def samples (s : SessionData) : Collector → List Sample
  | .battery => s.battery.map fun p => ⟨.own p.discharge.stamp.wallMillis, p.discharge.val.isNone⟩
  | .cpu => s.cpu.map fun p => ⟨.own p.utility.stamp.wallMillis, p.utility.val.isNone⟩
  | .gpu => s.gpu.map fun p => ⟨.offset p.t, (gpuValue p).isNone⟩
  | .proc => s.procs.map fun p => ⟨.offset p.t, false⟩
  | .display =>
      s.display.map fun p => ⟨.own p.brightness.stamp.wallMillis, p.brightness.val.isNone⟩
  | .net => s.net.map fun p => ⟨.own p.totalRx.stamp.wallMillis, p.totalRx.val.isNone⟩
  | .storage => s.storage.map fun p => ⟨.own p.diskTime.stamp.wallMillis, p.diskTime.val.isNone⟩
  | .usb => s.usb.map fun p => ⟨.offset p.t, false⟩
  | .self => s.selfmon.map fun p => ⟨.own p.cpuPct.stamp.wallMillis, p.cpuPct.val.isNone⟩
  | .osPower => s.policyHistory.map fun p => ⟨.offset p.1, false⟩

/-- The wall time of the last sample. -/
def lastWall (s : SessionData) (c : Collector) : Option UInt64 :=
  (samples s c).getLast?.map fun x => x.clock.wall s.wallBaseMs

theorem lastWalls_eq (s : SessionData) :
    lastWalls s = Collector.all.map fun c => (c.name, lastWall s c) := by
  simp [lastWalls, lastWall, samples, Collector.all, Collector.name, List.getLast?_map,
    Function.comp_def, Clock.wall, monoWall]

/-- The freshness of a collector counts its samples and those that failed. The policy goes
under another name there than in the view, so the view finds no freshness of it. -/
theorem freshness_find (s : SessionData) (c : Collector) :
    ((freshness s).find? (·.name = c.name)).map (fun f => (f.samples, f.failures)) =
      if c = .osPower then none
      else some ((samples s c).length, (samples s c).countP (·.failed)) := by
  cases c <;>
    simp [freshness, Collector.name, samples, List.countP_map, Function.comp_def, usbValue]

end PowerForensics.Evidence

/-! ## Counts and states of the view

The view joins three tables by the name of a collector: the last wall times, the freshness and
the names that the index discovered. For every collector that all three call by one name it
counts the samples that were loaded, and says of one that answers and is not aged that it is
there. The policy of the system has another name in the freshness.
-/

namespace PowerForensics.Evidence

open Session Dashboard

namespace Viewing

variable (w : Viewing) (s : SessionData) (c : Collector)

/-- What the view lists of a collector. -/
def listed : CollectorState := w.collectorState s c.name (lastWall s c)

theorem collectorsView_eq : w.collectorsView s = Collector.all.map (w.listed s) := by
  rw [collectorsView, lastWalls_eq, List.map_map]
  rfl

/-- A collector with an available sample, the last of which is not too old. -/
def Answering : Prop :=
  (∃ x ∈ samples s c, x.failed = false) ∧ w.aged (lastWall s c) = false

/-- The view counts what was recorded, and a collector that answers is there. -/
def Truthful : Prop :=
  (w.listed s c).samples = (samples s c).length ∧
    (w.Answering s c → (w.listed s c).state ≠ .unavailable ∧ (w.listed s c).state ≠ .stale)

theorem listed_state : (w.listed s c).state =
    (w.health c.name (w.listed s c).samples (w.listed s c).failures (lastWall s c)).1 := rfl

/-- The counts of a collector, where the freshness has its name. -/
theorem listed_counts (hc : c ≠ .osPower) :
    (w.listed s c).samples = (samples s c).length ∧
      (w.listed s c).failures = (samples s c).countP (·.failed) := by
  have hfind := freshness_find s c
  rw [if_neg hc] at hfind
  cases hf : (freshness s).find? (·.name = c.name) with
  | none => simp [hf] at hfind
  | some f =>
      simp only [hf, Option.map_some, Option.some.injEq, Prod.mk.injEq] at hfind
      obtain ⟨hsamples, hfailures⟩ := hfind
      constructor
      · simp [listed, collectorState, hf, hsamples]
      · simp [listed, collectorState, hf, hfailures]

theorem listed_policy : (w.listed s .osPower).samples = 0 := by
  have hfind := freshness_find s .osPower
  rw [if_pos rfl, Option.map_eq_none_iff] at hfind
  simp [listed, collectorState, hfind]

/-- Some sample that did not fail is one more than those that failed. -/
theorem failures_lt_samples {xs : List Sample} (h : ∃ x ∈ xs, x.failed = false) :
    xs.countP (·.failed) < xs.length := by
  obtain ⟨x, hx, hanswered⟩ := h
  refine lt_of_le_of_ne List.countP_le_length fun heq => ?_
  have hall := List.countP_eq_length.mp heq x hx
  rw [hanswered] at hall
  cases hall

/-- A collector that answers is only reported away where the index does not name it. -/
theorem health_of_answering {name : String} {total failures : Nat} {last : Option UInt64}
    (hfewer : failures < total) (haged : w.aged last = false) :
    (w.health name total failures last).1 ≠ .unavailable ∧
        (w.health name total failures last).1 ≠ .stale ↔ w.present name ≠ some false := by
  unfold health
  split
  next habsent => simp [habsent]
  next hpresent =>
    rw [if_neg (by omega), if_neg (by omega), haged, if_neg Bool.false_ne_true]
    split <;> simp [hpresent]

theorem truthful_iff (hc : c ≠ .osPower) :
    w.Truthful s c ↔ ¬(w.Answering s c ∧ w.present c.name = some false) := by
  obtain ⟨hsamples, hfailures⟩ := w.listed_counts s c hc
  have hstate := w.listed_state s c
  rw [Truthful, hstate, hsamples, hfailures, eq_self_iff_true, true_and, not_and]
  refine forall_congr' fun hanswering => ?_
  exact w.health_of_answering (failures_lt_samples hanswering.1) hanswering.2

theorem truthful_policy : w.Truthful s .osPower ↔ s.policyHistory = [] := by
  have hcount := w.listed_policy s
  constructor
  · rintro ⟨hsamples, -⟩
    rw [hcount] at hsamples
    simpa [samples] using hsamples.symm
  · intro hnone
    refine ⟨by rw [hcount]; simp [samples, hnone], ?_⟩
    rintro ⟨⟨x, hx, -⟩, -⟩
    simp [samples, hnone] at hx

/-- The view is truthful exactly when the session has no sample of the policy and the index, if
there is one, names every collector that answers. -/
theorem collectorsView_truthful :
    w.collectorsView s = Collector.all.map (w.listed s) ∧
      ((∀ c ∈ Collector.all, w.Truthful s c) ↔
        s.policyHistory = [] ∧ ∀ c, w.Answering s c → w.present c.name ≠ some false) := by
  refine ⟨w.collectorsView_eq s, ?_⟩
  have hall : ∀ c, c ∈ Collector.all := by
    intro c
    cases c <;> simp [Collector.all]
  constructor
  · intro htruthful
    have hnone := (w.truthful_policy s).mp (htruthful .osPower (hall _))
    refine ⟨hnone, fun c hanswering habsent => ?_⟩
    by_cases hc : c = .osPower
    · obtain ⟨⟨x, hx, -⟩, -⟩ := hanswering
      simp [hc, samples, hnone] at hx
    · exact (w.truthful_iff s c hc).mp (htruthful c (hall c)) ⟨hanswering, habsent⟩
  · rintro ⟨hnone, hpresent⟩ c -
    by_cases hc : c = .osPower
    · rw [hc]
      exact (w.truthful_policy s).mpr hnone
    · exact (w.truthful_iff s c hc).mpr fun h => hpresent c h.1 h.2

/-- A recording of the policy alone. -/
def policyRecording : SessionData :=
  { (default : SessionData) with wallBaseMs := 1000, policyHistory := [(0, default)] }

/-- Looked at right after its only sample. -/
def looking : Viewing :=
  { observed := some ["os_power"], baseIntervalMs := 1000, caps := ⟨[]⟩
    referenceWallMs := 1000, nowWallMs := 1000 }

/-- The sample is recent and available, and the view counts none and calls it stale. -/
theorem policy_not_counted : ¬looking.Truthful policyRecording .osPower ∧
    (looking.listed policyRecording .osPower).samples = 0 ∧
    (samples policyRecording .osPower).length = 1 ∧
    looking.Answering policyRecording .osPower ∧
    (looking.listed policyRecording .osPower).state = .stale := by
  have hvalues : (looking.listed policyRecording .osPower).samples = 0 ∧
      (samples policyRecording .osPower).length = 1 ∧
      looking.aged (lastWall policyRecording .osPower) = false ∧
      (looking.listed policyRecording .osPower).state = .stale := by
    decide +kernel
  obtain ⟨hcount, hrecorded, hrecent, hstale⟩ := hvalues
  refine ⟨fun htruthful => ?_, hcount, hrecorded, ⟨⟨⟨.offset 0, false⟩, ?_, rfl⟩, hrecent⟩, hstale⟩
  · have hsamples := htruthful.1
    rw [hcount, hrecorded] at hsamples
    cases hsamples
  · simp [samples, policyRecording]

end Viewing

end PowerForensics.Evidence
