import PowerForensics.Agent.Store
import PowerForensics.Core.StatsReadings

/-! # Analysis of a range

A range is given in milliseconds of the wall clock. The battery readings that lie in it are
taken out of the session, and the energy is integrated over what was taken out, with the
rules for a whole session.
-/

namespace PowerForensics.Analyze

open Stats Session

/-! ## Clocks -/

/-- The wall clock at a monotonic time, in whole milliseconds. -/
def monoWall (s : SessionData) (t : Binary64) : UInt64 :=
  .ofNat (min (s.wallBaseMs.toNat + (t * 1000.0).toUnsigned 64) (2 ^ 64 - 1))

/-- The wall clock of a reading, its own if it has one. -/
def wallOf (s : SessionData) (t : Telemetry Binary64) (monoS : Binary64) : UInt64 :=
  if t.stamp.wallMillis > 0 then t.stamp.wallMillis else monoWall s monoS

/-- A battery reading with the clocks it is selected and integrated by. -/
structure BatteryReading (α : Type) where
  /-- Milliseconds of the wall clock. -/
  wallMs : UInt64
  time : α
  /-- The stamp of the reading in seconds; zero if it has none. -/
  wall : α
  discharge : Option α
  charge : Option α

def batteryReading (s : SessionData) (p : BatteryPoint) : BatteryReading Binary64 where
  wallMs := wallOf s p.discharge p.t
  time := p.t
  wall := .ofNat p.discharge.stamp.wallMillis.toNat / 1000.0
  discharge := p.discharge.val
  charge := p.charge.val

def batteryReadings (s : SessionData) : List (BatteryReading Binary64) :=
  s.battery.map (batteryReading s)

namespace BatteryReading

variable {α : Type}

def inRange (fromMs toMs : UInt64) (r : BatteryReading α) : Bool :=
  !(r.wallMs < fromMs || r.wallMs > toMs)

/-- The reading of the power that is drawn from the battery. -/
def discharging (r : BatteryReading α) : PowerReading α := ⟨r.time, r.wall, r.discharge⟩

/-- The reading of the power that goes into the battery. -/
def charging (r : BatteryReading α) : PowerReading α := ⟨r.time, r.wall, r.charge⟩

end BatteryReading

/-! ## Energy of a range -/

structure Clocks (α : Type) where
  times : List α
  walls : List α
  discharge : List (Option α)
  charge : List (Option α)

/-- The readings in a range with both clocks. -/
def batteryClocks {α : Type} (readings : List (BatteryReading α)) (fromMs toMs : UInt64) :
    Clocks α :=
  let inside := readings.filter (BatteryReading.inRange fromMs toMs)
  { times := inside.map BatteryReading.time
    walls := inside.map BatteryReading.wall
    discharge := inside.map BatteryReading.discharge
    charge := inside.map BatteryReading.charge }

structure RangeEnergy (α : Type) where
  dischargeWh : Option α
  chargeWh : Option α
  coveredS : α
  unknownS : α
  unobservedS : α
  discontinuities : Nat
  crossesDiscontinuity : Bool
  dischargePresent : Bool
  chargePresent : Bool

section Energy

variable {α : Type} [Scalar α]

/-- Energy is reported if any time is covered. -/
def RangeEnergy.ofSegments (dseg cseg : SegmentEnergy α) (dischargePresent chargePresent : Bool) :
    RangeEnergy α where
  dischargeWh := if dseg.coveredSecs > 0.0 then some dseg.energyWh else none
  chargeWh := if cseg.coveredSecs > 0.0 then some cseg.energyWh else none
  coveredS := dseg.coveredSecs
  unknownS := dseg.unknownSecs
  unobservedS := dseg.unobservedSecs
  discontinuities := dseg.discontinuities
  crossesDiscontinuity := 0 < dseg.discontinuities
  dischargePresent
  chargePresent

def readingsEnergy (gap skew : α) (readings : List (BatteryReading α)) (fromMs toMs : UInt64) :
    RangeEnergy α :=
  let c := batteryClocks readings fromMs toMs
  .ofSegments (integrateSegmentedClocks c.times c.walls c.discharge gap skew)
    (integrateSegmentedClocks c.times c.walls c.charge gap skew)
    (c.discharge.any Option.isSome) (c.charge.any Option.isSome)

end Energy

def rangeEnergy (s : SessionData) (intervalMs fromMs toMs : UInt64) : RangeEnergy Binary64 :=
  readingsEnergy (energyMaxGapSecs intervalMs.toNat) Store.maxClockSkewSecs (batteryReadings s)
    fromMs toMs

end PowerForensics.Analyze
