import Mathlib.Tactic.Linarith
import Mathlib.Tactic.Positivity
import PowerForensics.Core.StatsSteps

/-! # What integration conserves

With or without boundaries the same loop body runs over the steps of a series. Over exact
rationals it accounts for all the time that a step takes, and what it covers it covers at powers
between those of the endpoints. A boundary can only take energy and covered time away.
-/

namespace PowerForensics.Stats

/-! ## The loop body -/

section Body

variable {α : Type} [Scalar α]

/-- Integration without boundaries. -/
def integrateSegmented (timesSecs : List α) (watts : List (Option α)) (maxGapSecs : α) :
    SegmentEnergy α :=
  integratePairs timesSecs watts maxGapSecs []

/-- One step of the loop, with or without a boundary before the second sample. -/
def SegmentEnergy.pass (out : SegmentEnergy α) (broken : Bool) (dt : α) (a b : Option α)
    (maxGapSecs : α) : SegmentEnergy α :=
  if dt < 0.0 ∨ broken then
    if dt > 0.0 then { out with unknownSecs := out.unknownSecs + dt } else out
  else out.addPair dt a b maxGapSecs

/-- The loop over steps of a series, with the boundaries that are given. -/
def passes (broken : Nat → Bool) (times : List α) (watts : List (Option α)) (gap : α)
    (steps : List Nat) (out : SegmentEnergy α) : SegmentEnergy α :=
  steps.foldl (fun out i => out.pass (broken i) (at_ times (i + 1) - at_ times i)
    (watts.getD i none) (watts.getD (i + 1) none) gap) out

variable {times : List α} {watts : List (Option α)} (hwatts : watts.length = times.length)

include hwatts

theorem integrateSegmented_eq (gap : α) : integrateSegmented times watts gap =
    passes (fun _ => false) times watts gap (List.range (times.length - 1)) default := by
  unfold integrateSegmented integratePairs
  split
  next hshort =>
    have hlen : times.length - 1 = 0 := by omega
    rw [hlen]
    rfl
  · rfl

/-- The fields that the loop computes, with a boundary at every discontinuity. -/
theorem integrateSegmentedClocks_passes (walls : List α) (gap skew : α) :
    let seg := integrateSegmentedClocks times walls watts gap skew
    let out := passes (fun i => (discontinuityAt times walls gap skew i).isSome) times watts gap
      (List.range (times.length - 1)) default
    seg.energyWh = out.energyWh ∧ seg.coveredSecs = out.coveredSecs ∧
      seg.unknownSecs = out.unknownSecs := by
  intro seg out
  have hseg : seg = _ := integrateSegmentedClocks_eq gap skew hwatts
  rw [hseg]
  exact ⟨rfl, rfl, rfl⟩

end Body

/-! ## One step, exactly -/

namespace SegmentEnergy

variable {out : SegmentEnergy ℚ} (broken : Bool) (dt : ℚ) (a b : Option ℚ) (gap : ℚ)

/-- The three things that can happen to a step. -/
theorem pass_cases (out : SegmentEnergy ℚ) :
    (dt ≤ 0 ∧ out.pass broken dt a b gap = out) ∨
    (0 ≤ dt ∧ out.pass broken dt a b gap = { out with unknownSecs := out.unknownSecs + dt }) ∨
    (0 ≤ dt ∧ broken = false ∧ ∃ u v : ℚ, a = some u ∧ b = some v ∧
      out.pass broken dt a b gap =
        { out with
          energyWh := out.energyWh + 1 / 2 * (u + v) * dt / 3600
          coveredSecs := out.coveredSecs + dt }) := by
  have hzero : (0.0 : ℚ) = 0 := by norm_num
  have hhalf : (0.5 : ℚ) = 1 / 2 := by norm_num
  have hhour : (3600.0 : ℚ) = 3600 := by norm_num
  unfold pass
  rw [hzero]
  split
  · split
    next hpos => exact Or.inr (Or.inl ⟨hpos.le, rfl⟩)
    next hpos => exact Or.inl ⟨not_lt.mp hpos, rfl⟩
  next hgo =>
    obtain ⟨hforward, hbroken⟩ := not_or.mp hgo
    rw [not_lt] at hforward
    unfold addPair
    split
    next u v =>
      split
      · refine Or.inr (Or.inr ⟨hforward, by simpa using hbroken, u, v, rfl, rfl, ?_⟩)
        rw [hhalf, hhour]
      · exact Or.inr (Or.inl ⟨hforward, rfl⟩)
    · exact Or.inr (Or.inl ⟨hforward, rfl⟩)

/-- All the time that a step takes forward is accounted for. -/
theorem span_pass (out : SegmentEnergy ℚ) :
    (out.pass broken dt a b gap).coveredSecs + (out.pass broken dt a b gap).unknownSecs =
      out.coveredSecs + out.unknownSecs + max dt 0 := by
  rcases pass_cases broken dt a b gap out with ⟨hdt, h⟩ | ⟨hdt, h⟩ | ⟨hdt, -, u, v, -, -, h⟩
  · rw [h, max_eq_right hdt, add_zero]
  · rw [h, max_eq_left hdt, add_assoc]
  · rw [h, max_eq_left hdt, add_right_comm]

theorem covered_pass (h0 : 0 ≤ out.coveredSecs) : 0 ≤ (out.pass broken dt a b gap).coveredSecs := by
  rcases pass_cases broken dt a b gap out with ⟨-, h⟩ | ⟨-, h⟩ | ⟨hdt, -, u, v, -, -, h⟩
  · rwa [h]
  · rwa [h]
  · rw [h]
    exact add_nonneg h0 hdt

/-- The energy of a step is at least that of the least power over the time covered. -/
theorem low_pass {low : ℚ} (ha : ∀ u ∈ a, low ≤ u) (hb : ∀ v ∈ b, low ≤ v)
    (hout : low * out.coveredSecs / 3600 ≤ out.energyWh) :
    low * (out.pass broken dt a b gap).coveredSecs / 3600 ≤
      (out.pass broken dt a b gap).energyWh := by
  rcases pass_cases broken dt a b gap out with ⟨-, h⟩ | ⟨-, h⟩ | ⟨hdt, -, u, v, rfl, rfl, h⟩
  · rwa [h]
  · rwa [h]
  · rw [h]
    have hmean : low * dt ≤ 1 / 2 * (u + v) * dt := by
      apply mul_le_mul_of_nonneg_right _ hdt
      linarith [ha u rfl, hb v rfl]
    dsimp only
    linarith

theorem high_pass {high : ℚ} (ha : ∀ u ∈ a, u ≤ high) (hb : ∀ v ∈ b, v ≤ high)
    (hout : out.energyWh ≤ high * out.coveredSecs / 3600) :
    (out.pass broken dt a b gap).energyWh ≤
      high * (out.pass broken dt a b gap).coveredSecs / 3600 := by
  rcases pass_cases broken dt a b gap out with ⟨-, h⟩ | ⟨-, h⟩ | ⟨hdt, -, u, v, rfl, rfl, h⟩
  · rwa [h]
  · rwa [h]
  · rw [h]
    have hmean : 1 / 2 * (u + v) * dt ≤ high * dt := by
      apply mul_le_mul_of_nonneg_right _ hdt
      linarith [ha u rfl, hb v rfl]
    dsimp only
    linarith

/-- A boundary takes the covered time of its step away, and with it the energy. -/
theorem pass_le {other : SegmentEnergy ℚ} (ha : ∀ u ∈ a, 0 ≤ u) (hb : ∀ v ∈ b, 0 ≤ v)
    (hcovered : out.coveredSecs ≤ other.coveredSecs) (henergy : out.energyWh ≤ other.energyWh) :
    (out.pass broken dt a b gap).coveredSecs ≤ (other.pass false dt a b gap).coveredSecs ∧
      (out.pass broken dt a b gap).energyWh ≤ (other.pass false dt a b gap).energyWh := by
  have hother : other.coveredSecs ≤ (other.pass false dt a b gap).coveredSecs ∧
      other.energyWh ≤ (other.pass false dt a b gap).energyWh := by
    rcases pass_cases false dt a b gap other with ⟨-, h⟩ | ⟨-, h⟩ | ⟨hdt, -, u, v, rfl, rfl, h⟩
    · rw [h]
      exact ⟨le_rfl, le_rfl⟩
    · rw [h]
      exact ⟨le_rfl, le_rfl⟩
    · rw [h]
      have hproduct := mul_nonneg (add_nonneg (ha u rfl) (hb v rfl)) hdt
      dsimp only
      constructor <;> linarith
  cases broken with
  | true =>
      rcases pass_cases true dt a b gap out with ⟨-, h⟩ | ⟨-, h⟩ | ⟨-, hbroken, -⟩
      · rw [h]
        exact ⟨hcovered.trans hother.1, henergy.trans hother.2⟩
      · rw [h]
        exact ⟨hcovered.trans hother.1, henergy.trans hother.2⟩
      · cases hbroken
  | false =>
      -- without a boundary both take the same branch
      unfold pass
      split
      · split
        · exact ⟨hcovered, henergy⟩
        · exact ⟨hcovered, henergy⟩
      · unfold addPair
        split
        · split
          · dsimp only
            constructor <;> linarith
          · exact ⟨hcovered, henergy⟩
        · exact ⟨hcovered, henergy⟩

end SegmentEnergy

/-! ## Whole series -/

section Series

variable {times : List ℚ} {watts : List (Option ℚ)} (broken : Nat → Bool) (gap : ℚ)

/-- The time that the steps of a series take forward. -/
def forwardSecs (times : List ℚ) : ℚ :=
  (List.range (times.length - 1)).foldl
    (fun sum i => sum + max (at_ times (i + 1) - at_ times i) 0) 0

/-- The powers that are known. -/
def knownWatts (watts : List (Option ℚ)) : List ℚ := watts.filterMap id

theorem mem_knownWatts {w : ℚ} {i : Nat} (hw : w ∈ watts.getD i none) : w ∈ knownWatts watts := by
  apply List.mem_filterMap.mpr
  refine ⟨some w, ?_, rfl⟩
  have hsome : watts.getD i none = some w := hw
  rw [List.getD_eq_getElem?_getD] at hsome
  cases hi : watts[i]? with
  | none =>
      rw [hi] at hsome
      cases hsome
  | some p =>
      rw [hi] at hsome
      exact hsome ▸ List.mem_of_getElem? hi

theorem span_passes (steps : List Nat) (out : SegmentEnergy ℚ) :
    (passes broken times watts gap steps out).coveredSecs +
        (passes broken times watts gap steps out).unknownSecs =
      steps.foldl (fun sum i => sum + max (at_ times (i + 1) - at_ times i) 0)
        (out.coveredSecs + out.unknownSecs) := by
  induction steps generalizing out with
  | nil => rfl
  | cons i steps ih =>
      rw [passes, List.foldl_cons, ← passes, ih, SegmentEnergy.span_pass, List.foldl_cons]

/-- What every step keeps holds in the end. -/
theorem passes_induction {P : SegmentEnergy ℚ → Prop}
    (hstep : ∀ (out : SegmentEnergy ℚ) (broken : Bool) (dt : ℚ) (i : Nat), P out →
      P (out.pass broken dt (watts.getD i none) (watts.getD (i + 1) none) gap))
    (steps : List Nat) {out : SegmentEnergy ℚ} (hout : P out) :
    P (passes broken times watts gap steps out) := by
  induction steps generalizing out with
  | nil => exact hout
  | cons i steps ih => exact ih (hstep out (broken i) _ i hout)

theorem passes_le (hnonneg : ∀ w ∈ knownWatts watts, 0 ≤ w) (steps : List Nat)
    {out other : SegmentEnergy ℚ} (hcovered : out.coveredSecs ≤ other.coveredSecs)
    (henergy : out.energyWh ≤ other.energyWh) :
    (passes broken times watts gap steps out).coveredSecs ≤
        (passes (fun _ => false) times watts gap steps other).coveredSecs ∧
      (passes broken times watts gap steps out).energyWh ≤
        (passes (fun _ => false) times watts gap steps other).energyWh := by
  induction steps generalizing out other with
  | nil => exact ⟨hcovered, henergy⟩
  | cons i steps ih =>
      have hnext := SegmentEnergy.pass_le (broken i) (at_ times (i + 1) - at_ times i)
        (watts.getD i none) (watts.getD (i + 1) none) gap
        (fun u hu => hnonneg u (mem_knownWatts hu)) (fun v hv => hnonneg v (mem_knownWatts hv))
        hcovered henergy
      exact ih hnext.1 hnext.2

theorem passes_congr {broken other : Nat → Bool} {steps : List Nat}
    (hsame : ∀ i ∈ steps, broken i = other i) (out : SegmentEnergy ℚ) :
    passes broken times watts gap steps out = passes other times watts gap steps out :=
  foldl_congr_of_mem (fun i hi out => by rw [hsame i hi]) out

/-- Over exact rationals integration accounts for all the time that goes forward, covers none
backwards, and gives an energy between those of the least and of the greatest known power over
the covered time. Boundaries never add energy or covered time to that of powers that are not
negative, and without any of them there is no difference. -/
theorem integration_conserves (hwatts : watts.length = times.length) (walls : List ℚ)
    (gap skew : ℚ) :
    let seg := integrateSegmentedClocks times walls watts gap skew
    let plain := integrateSegmented times watts gap
    seg.coveredSecs + seg.unknownSecs = forwardSecs times ∧
      0 ≤ seg.coveredSecs ∧
      (∀ low ∈ (knownWatts watts).min?, low * seg.coveredSecs / 3600 ≤ seg.energyWh) ∧
      (∀ high ∈ (knownWatts watts).max?, seg.energyWh ≤ high * seg.coveredSecs / 3600) ∧
      ((∀ w ∈ knownWatts watts, 0 ≤ w) →
        seg.energyWh ≤ plain.energyWh ∧ seg.coveredSecs ≤ plain.coveredSecs) ∧
      (discontinuities times walls gap skew = [] →
        seg.energyWh = plain.energyWh ∧ seg.coveredSecs = plain.coveredSecs) := by
  intro seg plain
  obtain ⟨henergy, hcovered, hunknown⟩ :=
    integrateSegmentedClocks_passes hwatts walls gap skew
  have hplain : plain = _ := integrateSegmented_eq hwatts gap
  have hfresh : (default : SegmentEnergy ℚ).coveredSecs = 0 ∧
      (default : SegmentEnergy ℚ).unknownSecs = 0 ∧ (default : SegmentEnergy ℚ).energyWh = 0 := by
    simp only [default]
    norm_num
  change seg.energyWh = _ at henergy
  change seg.coveredSecs = _ at hcovered
  change seg.unknownSecs = _ at hunknown
  rw [henergy, hcovered, hunknown, hplain]
  -- all are sums over the passes; each bound is kept by one pass
  refine ⟨?_, ?_, ?_, ?_, ?_, ?_⟩
  · rw [span_passes, hfresh.1, hfresh.2.1, add_zero, forwardSecs]
  · exact passes_induction _ gap (P := fun out => 0 ≤ out.coveredSecs)
      (fun out broken dt i => SegmentEnergy.covered_pass broken dt _ _ gap) _ hfresh.1.ge
  · intro low hlow
    have hle : ∀ w ∈ knownWatts watts, low ≤ w := (List.min?_eq_some_iff.mp hlow).2
    apply passes_induction _ gap
      (P := fun out => low * out.coveredSecs / 3600 ≤ out.energyWh)
    · intro out broken dt i
      exact SegmentEnergy.low_pass broken dt _ _ gap (fun u hu => hle u (mem_knownWatts hu))
        fun v hv => hle v (mem_knownWatts hv)
    · rw [hfresh.1, hfresh.2.2]
      norm_num
  · intro high hhigh
    have hle : ∀ w ∈ knownWatts watts, w ≤ high := (List.max?_eq_some_iff.mp hhigh).2
    apply passes_induction _ gap
      (P := fun out => out.energyWh ≤ high * out.coveredSecs / 3600)
    · intro out broken dt i
      exact SegmentEnergy.high_pass broken dt _ _ gap (fun u hu => hle u (mem_knownWatts hu))
        fun v hv => hle v (mem_knownWatts hv)
    · rw [hfresh.1, hfresh.2.2]
      norm_num
  · intro hnonneg
    exact (passes_le _ gap hnonneg _ le_rfl le_rfl).symm
  · -- without a boundary both integrations make the same passes
    intro hnone
    have hsame : ∀ i ∈ List.range (times.length - 1),
        (discontinuityAt times walls gap skew i).isSome = false := by
      intro i hi
      rw [discontinuities_eq, List.filterMap_eq_nil_iff] at hnone
      rw [hnone i hi]
      rfl
    rw [passes_congr gap hsame]
    exact ⟨rfl, rfl⟩

theorem integration_conserves_three :
    let seg := integrateSegmentedClocks [0, 10, 20] [1, 11, 100] [some 5, some 6, some 7]
      (60 : ℚ) 2
    seg.coveredSecs + seg.unknownSecs = forwardSecs [0, 10, 20] ∧ 0 ≤ seg.coveredSecs := by
  intro seg
  obtain ⟨hspan, hcovered, -⟩ :=
    @integration_conserves [0, 10, 20] [some 5, some 6, some 7] rfl [1, 11, 100] 60 2
  exact ⟨hspan, hcovered⟩

end Series

end PowerForensics.Stats
