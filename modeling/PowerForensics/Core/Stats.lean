import Mathlib.Algebra.Order.Field.Rat
import Mathlib.Data.List.Sort
import PowerForensics.Binary64.Basic

/-! # Energy integration over segments

The arithmetic is written once over the operations it uses, and is read at binary64
numbers, as the program runs it, or at exact rationals. A series is integrated pair by
pair; a pair separated by a clock discontinuity is a forced boundary, and no energy is
integrated across it.
-/

namespace PowerForensics.Stats

/-- The operations of a number type that the integration uses. -/
class Scalar (α : Type) extends Add α, Sub α, Mul α, Div α, Max α, LT α, LE α,
    OfScientific α where
  decLT : DecidableLT α
  decLE : DecidableLE α

attribute [instance] Scalar.decLT Scalar.decLE

instance : Scalar ℚ where
  decLT := inferInstance
  decLE := inferInstance

instance : Scalar Binary64 where
  decLT := inferInstance
  decLE := inferInstance

variable {α : Type} [Scalar α]

structure SegmentEnergy (α : Type) where
  energyWh : α
  coveredSecs : α
  unknownSecs : α
  unobservedSecs : α
  discontinuities : Nat
  deriving DecidableEq

instance : Inhabited (SegmentEnergy α) := ⟨⟨0.0, 0.0, 0.0, 0.0, 0⟩⟩

/-- Covered fraction of the observed span; none when the span is zero. -/
def SegmentEnergy.coverage (seg : SegmentEnergy α) : Option α :=
  let span := seg.coveredSecs + seg.unknownSecs
  if span ≤ 0.0 then none else some (seg.coveredSecs / span)

inductive DiscontinuityKind where
  | samplingGap
  | wallAheadOfMono
  | monoAheadOfWall
  | clockWentBackwards
  deriving DecidableEq, Repr

namespace DiscontinuityKind

def asStr : DiscontinuityKind → String
  | samplingGap => "sampling_gap"
  | wallAheadOfMono => "wall_ahead_of_mono"
  | monoAheadOfWall => "mono_ahead_of_wall"
  | clockWentBackwards => "clock_went_backwards"

def index : DiscontinuityKind → Nat
  | samplingGap => 0
  | wallAheadOfMono => 1
  | monoAheadOfWall => 2
  | clockWentBackwards => 3

def all : List DiscontinuityKind :=
  [samplingGap, wallAheadOfMono, monoAheadOfWall, clockWentBackwards]

end DiscontinuityKind

structure Discontinuity (α : Type) where
  index : Nat
  kind : DiscontinuityKind
  monoGapSecs : α
  wallGapSecs : Option α
  unobservedSecs : α

/-- Why the step between two consecutive samples forces a boundary, if it does. -/
def classifyStep (monoDt : α) (wallDt : Option α) (maxGapSecs maxSkewSecs : α) :
    Option DiscontinuityKind :=
  if monoDt < 0.0 ∨ wallDt.any (· < 0.0) then some .clockWentBackwards
  else
    match wallDt with
    | some w =>
        if w - monoDt > maxSkewSecs then some .wallAheadOfMono
        else if monoDt - w > maxSkewSecs then some .monoAheadOfWall
        else if monoDt > maxGapSecs ∨ w > maxGapSecs then some .samplingGap
        else none
    | none => if monoDt > maxGapSecs then some .samplingGap else none

/-- Three collection intervals, floored at five seconds. -/
def energyMaxGapSecs (intervalMs : Nat) : Binary64 :=
  max ((intervalMs : Binary64) / 1000.0 * 3.0) 5.0

/-- The wall clock's step, when both endpoints carry a real stamp. -/
def wallStep (before after : α) : Option α :=
  if before > 0.0 ∧ after > 0.0 then some (after - before) else none

/-- Real elapsed time of a step across which nothing is integrated. -/
def unobserved (monoDt : α) (wallDt : Option α) : α :=
  max ((wallDt.map fun w => max monoDt w).getD monoDt) 0.0

/-- The element at an index that is inside the list. -/
def at_ (xs : List α) (i : Nat) : α := xs[i]?.getD 0.0

/-- The boundary forced between two samples of a series, if any. -/
def discontinuityAt (timesSecs wallSecs : List α) (maxGapSecs maxSkewSecs : α) (i : Nat) :
    Option (Discontinuity α) :=
  let monoDt := at_ timesSecs (i + 1) - at_ timesSecs i
  let wallDt :=
    if wallSecs.length = timesSecs.length then wallStep (at_ wallSecs i) (at_ wallSecs (i + 1))
    else none
  (classifyStep monoDt wallDt maxGapSecs maxSkewSecs).map fun kind =>
    ⟨i, kind, monoDt, wallDt, unobserved monoDt wallDt⟩

/-- The forced boundaries of a series that carries both clocks. -/
def discontinuities (timesSecs wallSecs : List α) (maxGapSecs maxSkewSecs : α) :
    List (Discontinuity α) :=
  if timesSecs.length < 2 then []
  else
    (List.range (timesSecs.length - 1)).filterMap
      (discontinuityAt timesSecs wallSecs maxGapSecs maxSkewSecs)

/-- A pair on a continuous step: integrated when both powers are known and the step is
short enough. -/
def SegmentEnergy.addPair (seg : SegmentEnergy α) (dt : α) (a b : Option α) (maxGapSecs : α) :
    SegmentEnergy α :=
  match a, b with
  | some a, some b =>
      if dt ≤ maxGapSecs then
        { seg with
          energyWh := seg.energyWh + 0.5 * (a + b) * dt / 3600.0
          coveredSecs := seg.coveredSecs + dt }
      else { seg with unknownSecs := seg.unknownSecs + dt }
  | _, _ => { seg with unknownSecs := seg.unknownSecs + dt }

/-- One pass of the trapezoid loop. -/
def integrateStep (timesSecs : List α) (watts : List (Option α)) (maxGapSecs : α)
    (breaks : List Bool) (out : SegmentEnergy α) (i : Nat) : SegmentEnergy α :=
  let dt := at_ timesSecs (i + 1) - at_ timesSecs i
  if dt < 0.0 ∨ breaks.getD i false then
    if dt > 0.0 then { out with unknownSecs := out.unknownSecs + dt } else out
  else out.addPair dt (watts.getD i none) (watts.getD (i + 1) none) maxGapSecs

def integratePairs (timesSecs : List α) (watts : List (Option α)) (maxGapSecs : α)
    (breaks : List Bool) : SegmentEnergy α :=
  if timesSecs.length ≠ watts.length ∨ timesSecs.length < 2 then default
  else
    (List.range (timesSecs.length - 1)).foldl (integrateStep timesSecs watts maxGapSecs breaks)
      default

/-- Integration with a boundary at every discontinuity. -/
def integrateSegmentedClocks (timesSecs wallSecs : List α) (watts : List (Option α))
    (maxGapSecs maxSkewSecs : α) : SegmentEnergy α :=
  let disc := discontinuities timesSecs wallSecs maxGapSecs maxSkewSecs
  let breaks := disc.foldl (fun breaks d => breaks.set d.index true)
    (List.replicate (timesSecs.length - 1) false)
  let unobservedSecs := disc.foldl (fun s d => s + d.unobservedSecs) 0.0
  { integratePairs timesSecs watts maxGapSecs breaks with
    unobservedSecs := unobservedSecs
    discontinuities := disc.length }

/-! ## Percentiles -/

/-- Percentile with linear interpolation, of values in their total order. -/
def percentileSorted (values : List Binary64) (p : Binary64) : Option Binary64 :=
  if values = [] ∨ ¬ ((0.0 : Binary64) ≤ p ∧ p ≤ (100.0 : Binary64)) then none
  else
    let sorted := values.insertionSort fun a b => a.totalRank ≤ b.totalRank
    let rank := p / 100.0 * .ofNat (values.length - 1)
    let lo := rank.floor.toUnsigned 64
    let hi := rank.ceil.toUnsigned 64
    if lo = hi then some (at_ sorted lo)
    else
      let frac := rank - .ofNat lo
      some (at_ sorted lo * (1.0 - frac) + at_ sorted hi * frac)

/-- Of some values there is every percentile. -/
theorem exists_percentileSorted {values : List Binary64} (hvalues : values ≠ []) {p : Binary64}
    (hp : (0.0 : Binary64) ≤ p ∧ p ≤ (100.0 : Binary64)) :
    ∃ v, percentileSorted values p = some v := by
  rw [percentileSorted, if_neg (by rw [not_or, not_not]; exact ⟨hvalues, hp⟩)]
  dsimp only
  split
  · exact ⟨_, rfl⟩
  · exact ⟨_, rfl⟩

def median (values : List Binary64) : Option Binary64 := percentileSorted values 50.0

example : median [3, -1, 2, 0] = some 1 := by decide +kernel

end PowerForensics.Stats
