import Mathlib.Algebra.Order.BigOperators.Group.List
import PowerForensics.Core.Analyze

/-! # A range and the whole session

A range takes its readings out of the session and pairs them anew. Where the wall clock was
set, readings that lie in a range may have others between them that do not, and these are
integrated as if they followed one another. A range agrees with the session where that does
not happen, and over exact numbers nowhere else, but for bridges that take no time.
-/

namespace PowerForensics.Analyze

open Stats Session Neighbours BatteryReading

section Parts

variable {α : Type} [Scalar α] (gap skew : α) (readings : List (BatteryReading α))
  (fromMs toMs : UInt64)

/-- The steps of the session whose readings both lie in a range. -/
def sessionSteps : List (BatteryReading α × BatteryReading α) :=
  within (inRange fromMs toMs) readings

/-- What the whole session integrates over a range. -/
def sessionPart : RangeEnergy α :=
  let steps := sessionSteps readings fromMs toMs
  let inside := readings.filter (inRange fromMs toMs)
  .ofSegments
    (integrateSteps gap skew (steps.map (Prod.map discharging discharging)))
    (integrateSteps gap skew (steps.map (Prod.map charging charging)))
    (inside.any fun r => r.discharge.isSome) (inside.any fun r => r.charge.isSome)

/-- The range leaves out no reading between two others. -/
def Unbridged : Prop :=
  ∀ a b, ¬ Bridged (inRange fromMs toMs) readings a b

theorem readingsEnergy_eq :
    readingsEnergy gap skew readings fromMs toMs =
      let inside := readings.filter (inRange fromMs toMs)
      .ofSegments
        (integrateSteps gap skew ((neighbours inside).map (Prod.map discharging discharging)))
        (integrateSteps gap skew ((neighbours inside).map (Prod.map charging charging)))
        (inside.any fun r => r.discharge.isSome) (inside.any fun r => r.charge.isSome) := by
  simp only [← neighbours_map, ← integrateReadings_eq, integrateReadings, List.map_map,
    readingsEnergy, batteryClocks, List.any_map]
  rfl

variable {readings fromMs toMs}

/-- Without bridges the range agrees with the session to the last bit. -/
theorem readingsEnergy_of_unbridged (hnone : Unbridged readings fromMs toMs) :
    readingsEnergy gap skew readings fromMs toMs = sessionPart gap skew readings fromMs toMs := by
  rw [readingsEnergy_eq]
  simp only [sessionPart, sessionSteps, neighbours_filter hnone]

/-- A break that is bridged is counted by the range and not by the session. -/
theorem readingsEnergy_of_break {a b : BatteryReading α}
    (hbridged : Bridged (inRange fromMs toMs) readings a b)
    (hbreak : (stepBreak gap skew (a.discharging, b.discharging)).isSome) :
    readingsEnergy gap skew readings fromMs toMs ≠ sessionPart gap skew readings fromMs toMs := by
  intro heq
  have hcount := congrArg RangeEnergy.discontinuities heq
  rw [readingsEnergy_eq] at hcount
  simp only [RangeEnergy.ofSegments, sessionPart, discontinuities_integrateSteps,
    List.countP_map, (neighbours_filter_perm _).countP_eq, List.countP_append,
    sessionSteps] at hcount
  have hnone : (bridges (inRange fromMs toMs) readings).countP
      ((fun step => (stepBreak gap skew step).isSome) ∘ Prod.map discharging discharging) = 0 := by
    omega
  exact List.countP_eq_zero.mp hnone _ (mem_bridges.mpr hbridged) hbreak

end Parts

/-! ## Exact numbers -/

section Exact

variable (gap skew : ℚ) (readings : List (BatteryReading ℚ)) (fromMs toMs : UInt64)

/-- What a sum of contributions has in a field is the sum of what they have in it. -/
theorem sum_field {f : SegmentEnergy ℚ → ℚ} (hzero : f 0 = 0)
    (hadd : ∀ a b, f (a + b) = f a + f b) (segs : List (SegmentEnergy ℚ)) :
    f segs.sum = (segs.map f).sum := by
  induction segs with
  | nil => exact hzero
  | cons seg segs ih => rw [List.sum_cons, hadd, ih, List.map_cons, List.sum_cons]

/-- A range is what the session integrates over it, and what it integrates over its bridges. -/
theorem integrate_range (f : BatteryReading ℚ → PowerReading ℚ) :
    integrateSteps gap skew
        ((neighbours (readings.filter (inRange fromMs toMs))).map (Prod.map f f)) =
      integrateSteps gap skew ((sessionSteps readings fromMs toMs).map (Prod.map f f)) +
        integrateSteps gap skew
          ((bridges (inRange fromMs toMs) readings).map (Prod.map f f)) := by
  have hperm := ((neighbours_filter_perm (p := inRange fromMs toMs) readings).map
    (Prod.map f f)).map (contribution gap skew)
  rw [integrateSteps_eq_sum, hperm.sum_eq, List.map_append, List.map_append, List.sum_append,
    ← integrateSteps_eq_sum, ← integrateSteps_eq_sum, sessionSteps]

/-- A bridge without a break between readings of one time contributes nothing. -/
theorem integrate_bridges {f : BatteryReading ℚ → PowerReading ℚ} {fromMs toMs : UInt64}
    {readings : List (BatteryReading ℚ)}
    (hstill : ∀ a b, Bridged (inRange fromMs toMs) readings a b →
      contribution gap skew (f a, f b) = 0) :
    integrateSteps gap skew ((bridges (inRange fromMs toMs) readings).map (Prod.map f f)) = 0 := by
  rw [integrateSteps_eq_sum, List.map_map]
  apply List.sum_eq_zero
  intro seg hseg
  obtain ⟨⟨a, b⟩, hmem, rfl⟩ := List.mem_map.mp hseg
  exact hstill a b (mem_bridges.mp hmem)

/-- Steps that cover nothing, leave nothing unknown and are no breaks take no time. -/
theorem contribution_of_integrate {steps : List (PowerReading ℚ × PowerReading ℚ)}
    (hcovered : (integrateSteps gap skew steps).coveredSecs = 0)
    (hunknown : (integrateSteps gap skew steps).unknownSecs = 0)
    (hbreaks : (integrateSteps gap skew steps).discontinuities = 0)
    {step : PowerReading ℚ × PowerReading ℚ} (hmem : step ∈ steps) :
    contribution gap skew step = 0 := by
  have hnone : stepBreak gap skew step = none := by
    rw [discontinuities_integrateSteps, List.countP_eq_zero] at hbreaks
    simpa using hbreaks step hmem
  have hzero : ∀ f : SegmentEnergy ℚ → ℚ, f 0 = 0 → (∀ a b, f (a + b) = f a + f b) →
      (∀ step, 0 ≤ f (contribution gap skew step)) → f (integrateSteps gap skew steps) = 0 →
      f (contribution gap skew step) = 0 := by
    intro f hzero hadd hnonneg hsum
    rw [integrateSteps_eq_sum, sum_field hzero hadd, List.map_map] at hsum
    refine List.all_zero_of_le_zero_le_of_sum_eq_zero ?_ hsum (List.mem_map_of_mem hmem)
    intro x hx
    obtain ⟨step, -, rfl⟩ := List.mem_map.mp hx
    exact hnonneg step
  have hc := hzero SegmentEnergy.coveredSecs rfl (fun _ _ => rfl)
    (fun step => (nonneg_contribution gap skew step).1) hcovered
  have hu := hzero SegmentEnergy.unknownSecs rfl (fun _ _ => rfl)
    (fun step => (nonneg_contribution gap skew step).2) hunknown
  have hspan := (contribution_of_no_break gap skew hnone).2.2.1
  rw [SegmentEnergy.spanSecs, hc, hu] at hspan
  exact (contribution_eq_zero gap skew).mpr ⟨hnone, by linarith⟩

/-- Over exact numbers a range agrees with the session exactly if its bridges are no breaks
and take no time. -/
theorem readingsEnergy_eq_sessionPart_iff :
    readingsEnergy gap skew readings fromMs toMs = sessionPart gap skew readings fromMs toMs ↔
      ∀ a b, Bridged (inRange fromMs toMs) readings a b →
        stepBreak gap skew (a.discharging, b.discharging) = none ∧ a.time = b.time := by
  rw [readingsEnergy_eq]
  simp only [sessionPart, integrate_range]
  constructor
  · intro heq a b hbridged
    have hcovered := congrArg RangeEnergy.coveredS heq
    have hunknown := congrArg RangeEnergy.unknownS heq
    have hbreaks := congrArg RangeEnergy.discontinuities heq
    simp only [RangeEnergy.ofSegments, SegmentEnergy.coveredSecs_add, SegmentEnergy.unknownSecs_add,
      SegmentEnergy.discontinuities_add, add_eq_left] at hcovered hunknown hbreaks
    exact (contribution_eq_zero gap skew).mp (contribution_of_integrate gap skew hcovered hunknown
      hbreaks (List.mem_map_of_mem (mem_bridges.mpr hbridged)))
  · intro hstill
    have hdischarge := integrate_bridges gap skew (f := discharging) fun a b hbridged =>
      (contribution_eq_zero gap skew).mpr (hstill a b hbridged)
    have hcharge := integrate_bridges gap skew (f := charging) fun a b hbridged =>
      (contribution_eq_zero gap skew).mpr (hstill a b hbridged)
    rw [hdischarge, hcharge, add_zero, add_zero]

/-! ## Adjacent ranges -/

/-- Where no element is in two selections, and all of them are in a third, they sum up to no
more than it. -/
theorem sum_filter_add_le {β : Type} {pa pb pu : β → Bool} {g : β → ℚ} {l : List β}
    (hdisjoint : ∀ x, pa x → pb x → False) (ha : ∀ x, pa x → pu x) (hb : ∀ x, pb x → pu x)
    (hnonneg : ∀ x ∈ l, 0 ≤ g x) :
    ((l.filter pa).map g).sum + ((l.filter pb).map g).sum ≤ ((l.filter pu).map g).sum := by
  induction l with
  | nil => simp
  | cons x l ih =>
      have hx := hnonneg x List.mem_cons_self
      have hl := ih fun y hy => hnonneg y (List.mem_cons_of_mem x hy)
      cases hpa : pa x with
      | true =>
          have hpb : ¬ pb x := fun hpb => hdisjoint x hpa hpb
          rw [List.filter_cons_of_pos hpa, List.filter_cons_of_neg hpb,
            List.filter_cons_of_pos (ha x hpa), List.map_cons, List.map_cons, List.sum_cons,
            List.sum_cons]
          linarith
      | false =>
          rw [List.filter_cons_of_neg (by simp [hpa])]
          cases hpb : pb x with
          | true =>
              rw [List.filter_cons_of_pos hpb, List.filter_cons_of_pos (hb x hpb), List.map_cons,
                List.map_cons, List.sum_cons, List.sum_cons]
              linarith
          | false =>
              rw [List.filter_cons_of_neg (by simp [hpb])]
              cases hpu : pu x with
              | true =>
                  rw [List.filter_cons_of_pos hpu, List.map_cons, List.sum_cons]
                  linarith
              | false =>
                  rw [List.filter_cons_of_neg (by simp [hpu])]
                  exact hl

variable {readings fromMs toMs} {midMs : UInt64}

theorem inRange_iff {r : BatteryReading ℚ} :
    inRange fromMs toMs r ↔ fromMs.toNat ≤ r.wallMs.toNat ∧ r.wallMs.toNat ≤ toMs.toNat := by
  simp only [inRange, Bool.not_eq_true', Bool.or_eq_false_iff, decide_eq_false_iff_not,
    GT.gt, UInt64.lt_iff_toNat_lt, not_lt]

theorem toNat_succ (hmid : midMs < toMs) : (midMs + 1).toNat = midMs.toNat + 1 := by
  have hlt := UInt64.lt_iff_toNat_lt.mp hmid
  have hto := toMs.toNat_lt
  rw [UInt64.toNat_add]
  exact Nat.mod_eq_of_lt (by simp; omega)

/-- The steps of adjacent ranges are steps of their union, and none is in both of them. -/
theorem sum_sessionSteps_le (hfrom : fromMs ≤ midMs) (hmid : midMs < toMs)
    {g : BatteryReading ℚ × BatteryReading ℚ → ℚ} (hnonneg : ∀ x ∈ neighbours readings, 0 ≤ g x) :
    ((sessionSteps readings fromMs midMs).map g).sum +
        ((sessionSteps readings (midMs + 1) toMs).map g).sum ≤
      ((sessionSteps readings fromMs toMs).map g).sum := by
  have hsucc := toNat_succ hmid
  have hlt := UInt64.lt_iff_toNat_lt.mp hmid
  have hle := UInt64.le_iff_toNat_le.mp hfrom
  refine sum_filter_add_le (fun x hx hx' => ?_) (fun x hx => ?_) (fun x hx => ?_) hnonneg
  · simp only [Bool.and_eq_true, inRange_iff] at hx hx'
    omega
  · simp only [Bool.and_eq_true, inRange_iff] at hx ⊢
    omega
  · simp only [Bool.and_eq_true, inRange_iff] at hx ⊢
    omega

theorem field_integrateSteps {f : SegmentEnergy ℚ → ℚ} (hzero : f 0 = 0)
    (hadd : ∀ a b, f (a + b) = f a + f b) (steps : List (BatteryReading ℚ × BatteryReading ℚ)) :
    f (integrateSteps gap skew (steps.map (Prod.map discharging discharging))) =
      (steps.map fun q => f (contribution gap skew (Prod.map discharging discharging q))).sum := by
  rw [integrateSteps_eq_sum, sum_field hzero hadd, List.map_map, List.map_map]
  rfl

theorem mem_of_neighbours {l : List (BatteryReading ℚ)} {x : BatteryReading ℚ × BatteryReading ℚ}
    (hx : x ∈ neighbours l) : x.1 ∈ l ∧ x.2 ∈ l :=
  ⟨(List.of_mem_zip hx).1, List.mem_of_mem_tail (List.of_mem_zip hx).2⟩

/-- A field that no step between readings of the session lowers. -/
def Increasing (readings : List (BatteryReading ℚ)) (f : SegmentEnergy ℚ → ℚ) : Prop :=
  ∀ x : BatteryReading ℚ × BatteryReading ℚ, x.1 ∈ readings → x.2 ∈ readings →
    0 ≤ f (contribution gap skew (Prod.map discharging discharging x))

theorem nonneg_field {f : SegmentEnergy ℚ → ℚ} (hzero : f 0 = 0)
    (hadd : ∀ a b, f (a + b) = f a + f b) (hf : Increasing gap skew readings f)
    {steps : List (BatteryReading ℚ × BatteryReading ℚ)}
    (hsteps : ∀ x ∈ steps, x.1 ∈ readings ∧ x.2 ∈ readings) :
    0 ≤ f (integrateSteps gap skew (steps.map (Prod.map discharging discharging))) := by
  rw [field_integrateSteps gap skew hzero hadd]
  apply List.sum_nonneg
  intro x hx
  obtain ⟨q, hq, rfl⟩ := List.mem_map.mp hx
  exact hf q (hsteps q hq).1 (hsteps q hq).2

theorem mem_of_sessionSteps {x : BatteryReading ℚ × BatteryReading ℚ}
    (hx : x ∈ sessionSteps readings fromMs toMs) : x.1 ∈ readings ∧ x.2 ∈ readings :=
  mem_of_neighbours (List.mem_of_mem_filter hx)

/-- In such a field a union has no less than its parts. -/
theorem field_adjacent {f : SegmentEnergy ℚ → ℚ} (hzero : f 0 = 0)
    (hadd : ∀ a b, f (a + b) = f a + f b) (hf : Increasing gap skew readings f)
    (hfrom : fromMs ≤ midMs) (hmid : midMs < toMs) :
    f (integrateSteps gap skew ((sessionSteps readings fromMs midMs).map
          (Prod.map discharging discharging))) +
        f (integrateSteps gap skew ((sessionSteps readings (midMs + 1) toMs).map
          (Prod.map discharging discharging))) ≤
      f (integrateSteps gap skew ((neighbours (readings.filter (inRange fromMs toMs))).map
        (Prod.map discharging discharging))) := by
  have hmem : ∀ x ∈ bridges (inRange fromMs toMs) readings, x.1 ∈ readings ∧ x.2 ∈ readings := by
    intro x hx
    obtain ⟨hx, hx'⟩ := mem_of_neighbours
      ((neighbours_filter_perm _).mem_iff.mpr (List.mem_append_right _ hx))
    exact ⟨List.mem_of_mem_filter hx, List.mem_of_mem_filter hx'⟩
  have hbridged := nonneg_field gap skew hzero hadd hf hmem
  have hsum := sum_sessionSteps_le hfrom hmid fun x hx =>
    hf x (mem_of_neighbours hx).1 (mem_of_neighbours hx).2
  rw [integrate_range, hadd]
  simp only [field_integrateSteps gap skew hzero hadd] at hbridged ⊢
  linarith

/-- The watts of a session are not negative. -/
def Nonnegative (readings : List (BatteryReading ℚ)) : Prop :=
  ∀ r ∈ readings, ∀ w ∈ r.discharge, 0 ≤ w

theorem reported_energy (dseg cseg : SegmentEnergy ℚ) (d c : Bool) :
    (RangeEnergy.ofSegments dseg cseg d c).dischargeWh.getD 0 =
      if 0 < dseg.coveredSecs then dseg.energyWh else 0 := by
  have hzero : dseg.coveredSecs > 0.0 ↔ 0 < dseg.coveredSecs := by norm_num
  simp only [RangeEnergy.ofSegments, hzero]
  split <;> rfl

/-- Adjacent ranges cover no more time than their union and find no more energy in it. -/
theorem adjacent_le (hfrom : fromMs ≤ midMs) (hmid : midMs < toMs)
    (hleft : Unbridged readings fromMs midMs) (hright : Unbridged readings (midMs + 1) toMs)
    (hnonneg : Nonnegative readings) :
    let a := readingsEnergy gap skew readings fromMs midMs
    let b := readingsEnergy gap skew readings (midMs + 1) toMs
    let union := readingsEnergy gap skew readings fromMs toMs
    a.coveredS + b.coveredS ≤ union.coveredS ∧
      a.dischargeWh.getD 0 + b.dischargeWh.getD 0 ≤ union.dischargeWh.getD 0 := by
  have hc : Increasing gap skew readings SegmentEnergy.coveredSecs :=
    fun x _ _ => (nonneg_contribution gap skew _).1
  have he : Increasing gap skew readings SegmentEnergy.energyWh :=
    fun x h h' => nonneg_energy gap skew (hnonneg x.1 h) (hnonneg x.2 h')
  have hcovered := field_adjacent gap skew rfl (fun _ _ => rfl) hc hfrom hmid
  have henergy := field_adjacent gap skew rfl (fun _ _ => rfl) he hfrom hmid
  have hca := nonneg_field gap skew rfl (fun _ _ => rfl) hc
    fun x (hx : x ∈ sessionSteps readings fromMs midMs) => mem_of_sessionSteps hx
  have hcb := nonneg_field gap skew rfl (fun _ _ => rfl) hc
    fun x (hx : x ∈ sessionSteps readings (midMs + 1) toMs) => mem_of_sessionSteps hx
  have hea := nonneg_field gap skew rfl (fun _ _ => rfl) he
    fun x (hx : x ∈ sessionSteps readings fromMs midMs) => mem_of_sessionSteps hx
  have heb := nonneg_field gap skew rfl (fun _ _ => rfl) he
    fun x (hx : x ∈ sessionSteps readings (midMs + 1) toMs) => mem_of_sessionSteps hx
  intro a b union
  simp only [a, b, union, readingsEnergy_of_unbridged gap skew hleft,
    readingsEnergy_of_unbridged gap skew hright, readingsEnergy_eq, sessionPart, reported_energy]
  refine ⟨hcovered, ?_⟩
  split_ifs <;> linarith

end Exact

/-! ## Sessions -/

/-- The value of a pattern that is a finite number. -/
def exactValue (x : Binary64) : ℚ := x.signedUnits / 2 ^ Binary64.unitExponent

def BatteryReading.exact (r : BatteryReading Binary64) : BatteryReading ℚ where
  wallMs := r.wallMs
  time := exactValue r.time
  wall := exactValue r.wall
  discharge := r.discharge.map exactValue
  charge := r.charge.map exactValue

/-- The battery readings of a session with the values they stand for. -/
def exactReadings (s : SessionData) : List (BatteryReading ℚ) :=
  (batteryReadings s).map BatteryReading.exact

theorem unbridged_exact {s : SessionData} {fromMs toMs : UInt64}
    (hnone : Unbridged (batteryReadings s) fromMs toMs) :
    Unbridged (exactReadings s) fromMs toMs := by
  intro a b hbridged
  obtain ⟨a', b', hbridged, -, -⟩ := hbridged.of_map
  exact hnone a' b' hbridged

/-- Where no reading is left out between two others, a range agrees with the session, bit by
bit, and adjacent ranges exactly add up to no more than their union. Otherwise it disagrees if
a break is bridged, and over exact numbers exactly if a bridge is a break or takes time. -/
theorem range_agrees (s : SessionData) (intervalMs : UInt64) :
    let gap := energyMaxGapSecs intervalMs.toNat
    let skew := Store.maxClockSkewSecs
    let exactEnergy := readingsEnergy (exactValue gap) (exactValue skew) (exactReadings s)
    let exactPart := sessionPart (exactValue gap) (exactValue skew) (exactReadings s)
    (∀ fromMs toMs, Unbridged (batteryReadings s) fromMs toMs →
      rangeEnergy s intervalMs fromMs toMs =
        sessionPart gap skew (batteryReadings s) fromMs toMs) ∧
    (∀ fromMs toMs, rangeEnergy s intervalMs fromMs toMs =
        sessionPart gap skew (batteryReadings s) fromMs toMs →
      ∀ a b, Bridged (inRange fromMs toMs) (batteryReadings s) a b →
        stepBreak gap skew (a.discharging, b.discharging) = none) ∧
    (∀ fromMs toMs, exactEnergy fromMs toMs = exactPart fromMs toMs ↔
      ∀ a b, Bridged (inRange fromMs toMs) (exactReadings s) a b →
        stepBreak (exactValue gap) (exactValue skew) (a.discharging, b.discharging) = none ∧
          a.time = b.time) ∧
    ∀ fromMs midMs toMs, fromMs ≤ midMs → midMs < toMs →
      Unbridged (batteryReadings s) fromMs midMs → Unbridged (batteryReadings s) (midMs + 1) toMs →
      Nonnegative (exactReadings s) →
      (exactEnergy fromMs midMs).coveredS + (exactEnergy (midMs + 1) toMs).coveredS ≤
          (exactEnergy fromMs toMs).coveredS ∧
        (exactEnergy fromMs midMs).dischargeWh.getD 0 +
            (exactEnergy (midMs + 1) toMs).dischargeWh.getD 0 ≤
          (exactEnergy fromMs toMs).dischargeWh.getD 0 := by
  intro gap skew exactEnergy exactPart
  refine ⟨fun fromMs toMs hnone => readingsEnergy_of_unbridged gap skew hnone,
    fun fromMs toMs heq a b hbridged => ?_,
    fun fromMs toMs => readingsEnergy_eq_sessionPart_iff _ _ _ _ _,
    fun fromMs midMs toMs hfrom hmid hleft hright hnonneg =>
      adjacent_le _ _ hfrom hmid (unbridged_exact hleft) (unbridged_exact hright) hnonneg⟩
  by_contra hbreak
  exact readingsEnergy_of_break gap skew hbridged (Option.isSome_iff_ne_none.mpr hbreak) heq

/-- A battery point that draws ten watts. -/
def tenWatts (t : Binary64) (wallMillis : UInt64) : BatteryPoint :=
  { (default : BatteryPoint) with
    t
    discharge := .measured 10.0 "battery" ⟨wallMillis, 0⟩ }

/-- The wall clock is set forward and back again. -/
def steppedSession : SessionData :=
  { (default : SessionData) with
    battery := [tenWatts 0.0 1000, tenWatts 1.0 900000, tenWatts 2.0 3000] }

/-- Two seconds are covered between readings that do not follow one another. -/
theorem range_bridges : ¬ ∀ (s : SessionData) (intervalMs fromMs toMs : UInt64),
    rangeEnergy s intervalMs fromMs toMs =
      sessionPart (energyMaxGapSecs intervalMs.toNat) Store.maxClockSkewSecs (batteryReadings s)
        fromMs toMs := by
  intro h
  have hcovered := congrArg RangeEnergy.coveredS (h steppedSession 1000 0 5000)
  exact absurd hcovered (by decide +kernel)

end PowerForensics.Analyze
