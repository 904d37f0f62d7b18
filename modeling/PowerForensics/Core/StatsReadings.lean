import PowerForensics.Core.StatsSteps
import PowerForensics.System.Neighbours

/-! # Integration from reading to reading

A series of readings is integrated from each of them to the next. Over exact rationals what
a step adds is never negative, so that a series over which more steps are taken has covered
no less; it has covered as much exactly if the further steps took no time.
-/

namespace PowerForensics.Stats

open Neighbours

/-- Both clocks and a power. -/
structure PowerReading (α : Type) where
  time : α
  wall : α
  watts : Option α
  deriving DecidableEq

section Steps

variable {α : Type} [Scalar α] (gap skew : α)

/-- The step from a reading to the next. -/
def SegmentEnergy.addStep (seg : SegmentEnergy α) (step : PowerReading α × PowerReading α) :
    SegmentEnergy α :=
  seg.extend (step.2.time - step.1.time) (wallStep step.1.wall step.2.wall) step.1.watts
    step.2.watts gap skew

def integrateSteps (steps : List (PowerReading α × PowerReading α)) : SegmentEnergy α :=
  steps.foldl (SegmentEnergy.addStep gap skew) default

def integrateReadings (rs : List (PowerReading α)) : SegmentEnergy α :=
  integrateSegmentedClocks (rs.map PowerReading.time) (rs.map PowerReading.wall)
    (rs.map PowerReading.watts) gap skew

/-- The integrator goes from each reading to the next. -/
theorem integrateReadings_eq (rs : List (PowerReading α)) :
    integrateReadings gap skew rs = integrateSteps gap skew (neighbours rs) := by
  induction rs using List.reverseRecOn with
  | nil => rfl
  | append_singleton rs r ih =>
      cases rs using List.reverseRecOn with
      | nil => rfl
      | append_singleton rs q =>
          have hlast : ∀ f : PowerReading α → α, at_ ((rs ++ [q]).map f) rs.length = f q := by
            intro f
            rw [List.map_append, ← List.length_map (f := f)]
            exact at_append_last (f q)
          have hpower : ((rs ++ [q]).map PowerReading.watts).getD rs.length none = q.watts := by
            rw [List.map_append, ← List.length_map (f := PowerReading.watts)]
            exact getD_append_last q.watts
          have hsplit : ∀ {β : Type} (f : PowerReading α → β),
              (rs ++ [q] ++ [r]).map f = (rs ++ [q]).map f ++ [f r] := by simp
          have hlen : ((rs ++ [q]).map PowerReading.time).length = rs.length + 1 := by simp
          rw [integrateReadings, hsplit, hsplit, hsplit,
            integrateSegmentedClocks_append gap skew (by simp) (by simp) _ _ _ hlen, hlast, hlast,
            hpower, ← integrateReadings, ih, neighbours_concat]
          simp only [integrateSteps, List.foldl_append, List.foldl_cons, List.foldl_nil,
            SegmentEnergy.addStep]

/-- Why nothing is integrated over a step, if so. -/
def stepBreak (step : PowerReading α × PowerReading α) : Option DiscontinuityKind :=
  classifyStep (step.2.time - step.1.time) (wallStep step.1.wall step.2.wall) gap skew

/-- Every break is counted. -/
theorem discontinuities_integrateSteps (steps : List (PowerReading α × PowerReading α)) :
    (integrateSteps gap skew steps).discontinuities =
      steps.countP fun step => (stepBreak gap skew step).isSome := by
  have hstep : ∀ (seg : SegmentEnergy α) step, (seg.addStep gap skew step).discontinuities =
      seg.discontinuities + if (stepBreak gap skew step).isSome then 1 else 0 := by
    intro seg step
    rw [SegmentEnergy.addStep, SegmentEnergy.extend, ← stepBreak]
    cases stepBreak gap skew step with
    | some kind => rfl
    | none =>
        simp only [SegmentEnergy.addPair, Option.isSome_none, Bool.false_eq_true, if_false]
        split
        · split <;> rfl
        · rfl
  induction steps using List.reverseRecOn with
  | nil => rfl
  | append_singleton steps step ih =>
      rw [integrateSteps, List.foldl_append, ← integrateSteps, List.foldl_cons, List.foldl_nil,
        hstep, ih, List.countP_append, List.countP_singleton]

end Steps

/-! ## Exact sums -/

section Exact

attribute [ext] SegmentEnergy

namespace SegmentEnergy

instance : Add (SegmentEnergy ℚ) where
  add a b :=
    ⟨a.energyWh + b.energyWh, a.coveredSecs + b.coveredSecs, a.unknownSecs + b.unknownSecs,
      a.unobservedSecs + b.unobservedSecs, a.discontinuities + b.discontinuities⟩

instance : Zero (SegmentEnergy ℚ) := ⟨⟨0, 0, 0, 0, 0⟩⟩

variable (a b : SegmentEnergy ℚ)

@[simp] theorem energyWh_add : (a + b).energyWh = a.energyWh + b.energyWh := rfl
@[simp] theorem coveredSecs_add : (a + b).coveredSecs = a.coveredSecs + b.coveredSecs := rfl
@[simp] theorem unknownSecs_add : (a + b).unknownSecs = a.unknownSecs + b.unknownSecs := rfl
@[simp] theorem unobservedSecs_add :
    (a + b).unobservedSecs = a.unobservedSecs + b.unobservedSecs := rfl
@[simp] theorem discontinuities_add :
    (a + b).discontinuities = a.discontinuities + b.discontinuities := rfl

@[simp] theorem energyWh_zero : (0 : SegmentEnergy ℚ).energyWh = 0 := rfl
@[simp] theorem coveredSecs_zero : (0 : SegmentEnergy ℚ).coveredSecs = 0 := rfl
@[simp] theorem unknownSecs_zero : (0 : SegmentEnergy ℚ).unknownSecs = 0 := rfl
@[simp] theorem unobservedSecs_zero : (0 : SegmentEnergy ℚ).unobservedSecs = 0 := rfl
@[simp] theorem discontinuities_zero : (0 : SegmentEnergy ℚ).discontinuities = 0 := rfl

instance : AddCommMonoid (SegmentEnergy ℚ) where
  add_assoc a b c := by ext <;> simp [add_assoc]
  zero_add a := by ext <;> simp
  add_zero a := by ext <;> simp
  add_comm a b := by ext <;> simp [add_comm]
  nsmul := nsmulRec

theorem default_eq_zero : (default : SegmentEnergy ℚ) = 0 := by
  ext <;> simp only [default]
  all_goals norm_num

end SegmentEnergy

variable (gap skew : ℚ)

/-- What a step contributes. -/
def contribution (step : PowerReading ℚ × PowerReading ℚ) : SegmentEnergy ℚ :=
  SegmentEnergy.addStep gap skew 0 step

theorem addStep_eq_add (seg : SegmentEnergy ℚ) (step : PowerReading ℚ × PowerReading ℚ) :
    seg.addStep gap skew step = seg + contribution gap skew step := by
  simp only [contribution, SegmentEnergy.addStep, SegmentEnergy.extend]
  split
  · ext <;> simp
    split <;> simp
  · simp only [SegmentEnergy.addPair]
    split
    · split <;> ext <;> simp
    · ext <;> simp

/-- Exactly, the steps are summed up. -/
theorem integrateSteps_eq_sum (steps : List (PowerReading ℚ × PowerReading ℚ)) :
    integrateSteps gap skew steps = (steps.map (contribution gap skew)).sum := by
  induction steps using List.reverseRecOn with
  | nil => exact SegmentEnergy.default_eq_zero
  | append_singleton steps step ih =>
      rw [integrateSteps, List.foldl_append, ← integrateSteps, List.foldl_cons, List.foldl_nil,
        addStep_eq_add, ih, List.map_append, List.sum_append, List.map_singleton,
        List.sum_singleton]

/-- Time that is covered or not known. -/
def SegmentEnergy.spanSecs (seg : SegmentEnergy ℚ) : ℚ := seg.coveredSecs + seg.unknownSecs

theorem forward_of_no_break {step : PowerReading ℚ × PowerReading ℚ}
    (hnone : stepBreak gap skew step = none) : step.1.time ≤ step.2.time := by
  by_contra hback
  have hlt : step.2.time - step.1.time < 0.0 := by
    norm_num
    linarith
  rw [stepBreak, classifyStep_of_backwards hlt] at hnone
  cases hnone

theorem discontinuities_contribution (step : PowerReading ℚ × PowerReading ℚ) :
    (contribution gap skew step).discontinuities =
      if (stepBreak gap skew step).isSome then 1 else 0 := by
  have hcount := discontinuities_integrateSteps gap skew [step]
  rw [integrateSteps_eq_sum, List.map_singleton, List.sum_singleton,
    List.countP_singleton] at hcount
  exact hcount

/-- A step over which nothing is integrated covers nothing. -/
theorem contribution_of_break {step : PowerReading ℚ × PowerReading ℚ} {kind : DiscontinuityKind}
    (hkind : stepBreak gap skew step = some kind) :
    (contribution gap skew step).coveredSecs = 0 ∧ (contribution gap skew step).energyWh = 0 ∧
      0 ≤ (contribution gap skew step).unknownSecs := by
  rw [stepBreak] at hkind
  rw [contribution, SegmentEnergy.addStep, SegmentEnergy.extend, hkind]
  refine ⟨rfl, rfl, ?_⟩
  dsimp only
  split
  · next hpos =>
    norm_num at hpos
    simpa using hpos.le
  · exact le_rfl

/-- Any other step is covered or not known for as long as it takes. -/
theorem contribution_of_no_break {step : PowerReading ℚ × PowerReading ℚ}
    (hnone : stepBreak gap skew step = none) :
    0 ≤ (contribution gap skew step).coveredSecs ∧ 0 ≤ (contribution gap skew step).unknownSecs ∧
      (contribution gap skew step).spanSecs = step.2.time - step.1.time ∧
      (contribution gap skew step).unobservedSecs = 0 ∧
      ((∀ w ∈ step.1.watts, 0 ≤ w) → (∀ w ∈ step.2.watts, 0 ≤ w) →
        0 ≤ (contribution gap skew step).energyWh) ∧
      (step.1.time = step.2.time → (contribution gap skew step).energyWh = 0) := by
  have hforward : 0 ≤ step.2.time - step.1.time :=
    sub_nonneg.mpr (forward_of_no_break gap skew hnone)
  rw [stepBreak] at hnone
  rw [contribution, SegmentEnergy.addStep, SegmentEnergy.extend, hnone]
  simp only [SegmentEnergy.addPair, SegmentEnergy.spanSecs]
  cases ha : step.1.watts with
  | none => simp [hforward]
  | some a =>
      cases hb : step.2.watts with
      | none => simp [hforward]
      | some b =>
          dsimp only
          split
          · refine ⟨by simpa using hforward, by simp, by simp, rfl, ?_, ?_⟩
            · intro ha hb
              have hproduct := mul_nonneg (add_nonneg (ha a rfl) (hb b rfl)) hforward
              norm_num
              linarith
            · intro heq
              simp [heq]
          · simp [hforward]

theorem nonneg_contribution (step : PowerReading ℚ × PowerReading ℚ) :
    0 ≤ (contribution gap skew step).coveredSecs ∧
    0 ≤ (contribution gap skew step).unknownSecs := by
  cases hbreak : stepBreak gap skew step with
  | some kind =>
      obtain ⟨hcovered, -, hunknown⟩ := contribution_of_break gap skew hbreak
      exact ⟨hcovered.ge, hunknown⟩
  | none =>
      obtain ⟨hcovered, hunknown, -⟩ := contribution_of_no_break gap skew hbreak
      exact ⟨hcovered, hunknown⟩

theorem nonneg_energy {step : PowerReading ℚ × PowerReading ℚ} (ha : ∀ w ∈ step.1.watts, 0 ≤ w)
    (hb : ∀ w ∈ step.2.watts, 0 ≤ w) : 0 ≤ (contribution gap skew step).energyWh := by
  cases hbreak : stepBreak gap skew step with
  | some kind => exact (contribution_of_break gap skew hbreak).2.1.ge
  | none => exact (contribution_of_no_break gap skew hbreak).2.2.2.2.1 ha hb

/-- A step contributes nothing exactly if it is no break and takes no time. -/
theorem contribution_eq_zero {step : PowerReading ℚ × PowerReading ℚ} :
    contribution gap skew step = 0 ↔
      stepBreak gap skew step = none ∧ step.1.time = step.2.time := by
  cases hbreak : stepBreak gap skew step with
  | some kind =>
      have hcount := discontinuities_contribution gap skew step
      rw [hbreak] at hcount
      constructor
      · intro hzero
        rw [hzero] at hcount
        cases hcount
      · rintro ⟨hnone, -⟩
        cases hnone
  | none =>
      obtain ⟨hcovered, hunknown, hspan, hunobserved, -, henergy⟩ :=
        contribution_of_no_break gap skew hbreak
      rw [SegmentEnergy.spanSecs] at hspan
      constructor
      · intro hzero
        rw [hzero, SegmentEnergy.coveredSecs_zero, SegmentEnergy.unknownSecs_zero] at hspan
        exact ⟨rfl, by linarith⟩
      · rintro ⟨-, heq⟩
        have hcount := discontinuities_contribution gap skew step
        rw [hbreak] at hcount
        ext
        · exact henergy heq
        · exact le_antisymm (by simp; linarith) hcovered
        · exact le_antisymm (by simp; linarith) hunknown
        · exact hunobserved
        · exact hcount

end Exact

end PowerForensics.Stats
