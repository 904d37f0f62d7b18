import PowerForensics.Binary64.Order
import PowerForensics.Core.Session

/-! # Freshness of the collectors

From the stored times of a session: how many samples a collector has, how many of them have no
value, when it was last sampled and last changed, and how far it is behind the last sample of
all collectors.
-/

namespace PowerForensics.Dashboard

open Session

structure SourceFreshness where
  name : String
  samples : Nat
  failures : Nat
  lastSampledS : Binary64
  lastChangedS : Binary64
  observedHz : Binary64
  staleAgeS : Binary64

/-- The times of a collector with its primary values. -/
abbrev Series := List (Binary64 × Option Binary64)

def changed : Option Binary64 → Option Binary64 → Bool
  | some a, some b => decide (1e-9 < (a - b).abs)
  | none, none => false
  | _, _ => true

/-- The time of the last sample that differs from the one before it. -/
def lastChanged (since : Binary64) : Series → Binary64
  | (_, before) :: (t, value) :: rest =>
      lastChanged (if changed before value then t else since) ((t, value) :: rest)
  | _ => since

def seriesStats (name : String) (pts : Series) (globalLast : Binary64) : SourceFreshness :=
  match pts.head?, pts.getLast? with
  | some (first, _), some (last, _) =>
      let span := last - first
      { name
        samples := pts.length
        failures := pts.countP (·.2.isNone)
        lastSampledS := last
        lastChangedS := lastChanged first pts
        observedHz := if 0 < span then (pts.length : Binary64) / span else 0
        staleAgeS := max (globalLast - last) 0 }
  | _, _ =>
      -- never sampled: stale for the whole span
      { name, samples := 0, failures := 0, lastSampledS := 0, lastChangedS := 0, observedHz := 0,
        staleAgeS := max globalLast 0 }

@[simp] theorem seriesStats_name (name : String) (pts : Series) (globalLast : Binary64) :
    (seriesStats name pts globalLast).name = name := by
  unfold seriesStats
  split <;> rfl

/-- A series is counted whether it has a last point or not. -/
theorem seriesStats_counts (name : String) (pts : Series) (globalLast : Binary64) :
    (seriesStats name pts globalLast).samples = pts.length ∧
      (seriesStats name pts globalLast).failures = pts.countP (·.2.isNone) := by
  unfold seriesStats
  split
  next => exact ⟨rfl, rfl⟩
  next hempty =>
    cases pts with
    | nil => exact ⟨rfl, rfl⟩
    | cons p pts =>
        have hlast := List.getLast?_eq_some_getLast (List.cons_ne_nil p pts)
        exact absurd hlast (hempty _ _ _ _ rfl)

@[simp] theorem seriesStats_samples (name : String) (pts : Series) (globalLast : Binary64) :
    (seriesStats name pts globalLast).samples = pts.length :=
  (seriesStats_counts name pts globalLast).1

@[simp] theorem seriesStats_failures (name : String) (pts : Series) (globalLast : Binary64) :
    (seriesStats name pts globalLast).failures = pts.countP (·.2.isNone) :=
  (seriesStats_counts name pts globalLast).2

/-! ## The series of a session -/

/-- The last time of all collectors. -/
def allLast (s : SessionData) : Binary64 :=
  ([(s.battery.map BatteryPoint.t).getLast?, (s.cpu.map CpuPoint.t).getLast?,
    (s.gpu.map GpuPoint.t).getLast?, (s.procs.map ProcPoint.t).getLast?,
    (s.display.map DisplayPoint.t).getLast?, (s.net.map NetPoint.t).getLast?,
    (s.storage.map StoragePoint.t).getLast?, (s.usb.map UsbPoint.t).getLast?,
    (s.selfmon.map SelfPoint.t).getLast?].filterMap id).foldl max 0

/-- Every change of the scheme is one step up. -/
def policySteps (scheme : Option String) (step : Binary64) : List (Binary64 × Policy) → Series
  | [] => []
  | (t, pol) :: rest =>
      let step := if scheme ≠ pol.schemeName then step + 1.0 else step
      (t, some step) :: policySteps pol.schemeName step rest

def sameValue : Option Binary64 → Option Binary64 → Bool
  | some a, some b => a.equals b
  | none, none => true
  | _, _ => false

/-- A series that never changes. -/
def flat : Series → Bool
  | (_, before) :: (t, value) :: rest => sameValue before value && flat ((t, value) :: rest)
  | _ => true

/-- A scheme that never changed is known since its first sample. -/
def policyStats (pts : Series) (globalLast : Binary64) : SourceFreshness :=
  let f := seriesStats "os_policy" pts globalLast
  if 1 < pts.length ∧ flat pts then { f with lastChangedS := (pts.head?.map Prod.fst).getD 0 }
  else f

def gpuValue (p : GpuPoint) : Option Binary64 := p.adapters.head?.bind (·.totalUtil.val)

def usbValue (p : UsbPoint) : Option Binary64 :=
  some ((p.classes.map UsbClassCount.count).foldr (· + ·) 0 : Nat)

def freshness (s : SessionData) : List SourceFreshness :=
  [seriesStats "battery" (s.battery.map fun p => (p.t, p.discharge.val)) (allLast s),
    seriesStats "cpu" (s.cpu.map fun p => (p.t, p.utility.val)) (allLast s),
    seriesStats "gpu" (s.gpu.map fun p => (p.t, gpuValue p)) (allLast s),
    seriesStats "proc" (s.procs.map fun p => (p.t, some (p.top.length : Binary64))) (allLast s),
    seriesStats "display" (s.display.map fun p => (p.t, p.brightness.val)) (allLast s),
    seriesStats "net" (s.net.map fun p => (p.t, p.totalRx.val)) (allLast s),
    seriesStats "storage" (s.storage.map fun p => (p.t, p.diskTime.val)) (allLast s),
    seriesStats "usb" (s.usb.map fun p => (p.t, usbValue p)) (allLast s),
    seriesStats "self" (s.selfmon.map fun p => (p.t, p.cpuPct.val)) (allLast s),
    policyStats (policySteps none 0 s.policyHistory) (allLast s)]

@[simp] theorem policyStats_name (pts : Series) (globalLast : Binary64) :
    (policyStats pts globalLast).name = "os_policy" := by
  unfold policyStats
  dsimp only
  split <;> simp

end PowerForensics.Dashboard
