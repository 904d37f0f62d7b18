import PowerForensics.Binary64.Order
import PowerForensics.Collectors.Battery
import PowerForensics.Core.Stats

/-! # The battery boost

When the discharge deviates from its short baseline, the monitor has the battery sampled more
often for a while, at a quarter of the configured interval but never below a quarter of a second.
The interval that the battery worker reads is the configured one or the boosted one, and the
boosted one is longer where the configured one is below that bound.
-/

namespace PowerForensics.Monitor

open Collectors

/-! ## Baselines -/

/-- Values in a window, the oldest one first. -/
def pushWindow (cap : Nat) (q : List Binary64) (w : Binary64) : List Binary64 :=
  (if q.length ≥ cap then q.drop 1 else q) ++ [w]

structure MultiBaseline where
  short : List Binary64
  medium : List Binary64
  long : List Binary64

namespace MultiBaseline

def new : MultiBaseline := ⟨[], [], []⟩

def push (b : MultiBaseline) (w : Binary64) : MultiBaseline :=
  ⟨pushWindow 10 b.short w, pushWindow 60 b.medium w, pushWindow 300 b.long w⟩

def shortMed (b : MultiBaseline) : Option Binary64 := Stats.median b.short
def mediumMed (b : MultiBaseline) : Option Binary64 := Stats.median b.medium
def longMed (b : MultiBaseline) : Option Binary64 := Stats.median b.long

/-- The latest value is off the short baseline by a floor and by a fraction of the baseline. -/
def shouldBoost (b : MultiBaseline) (latest absFloorW relFrac : Binary64) : Bool :=
  match b.shortMed with
  | some base =>
      decide (base > 0.0) &&
        (decide ((latest - base).abs ≥ absFloorW) && decide ((latest - base).abs ≥ relFrac * base))
  | none => false

end MultiBaseline

/-! ## The battery handler -/

/-- What the handler of battery samples keeps for the boost, the interval that the worker reads
included, and the hints it wrote to the timeline. -/
structure BoostState where
  baselines : MultiBaseline
  dchCount : Nat
  boosted : Nat
  batteryInterval : UInt64
  baseInterval : UInt64
  hints : List String

def BoostState.start (baseInterval : UInt64) : BoostState :=
  ⟨.new, 0, 0, baseInterval, baseInterval, []⟩

/-- The interval while a boost is pending. -/
def boostInterval (baseInterval : UInt64) : UInt64 := max (baseInterval / 4) 250

def wattsText (w : Binary64) : String := String.ofList (w.fixed 2)

/-- A median that there is not is shown as no number. -/
def medText (m : Option Binary64) : String := wattsText (m.getD .nan)

def anomalyHint (b : MultiBaseline) (last : Binary64) : String :=
  s!"discharge deviated to {wattsText last} W vs short-baseline median {medText b.shortMed} W " ++
    s!"(medium {medText b.mediumMed}, long {medText b.longMed}); boosting sample rate"

/-- A discharge is entered in the baselines. -/
def BoostState.enter (st : BoostState) (last : Binary64) : BoostState :=
  { st with baselines := st.baselines.push last, dchCount := st.dchCount + 1 }

/-- The guard of a boost. -/
def BoostState.deviates (st : BoostState) (last : Binary64) : Bool :=
  decide (st.dchCount ≥ 10) && st.baselines.shouldBoost last 1.0 0.2 && decide (st.boosted = 0)

def BoostState.discharge (st : BoostState) (last : Binary64) : BoostState :=
  let st := st.enter last
  if st.deviates last then
    { st with
      boosted := 8
      batteryInterval := boostInterval st.baseInterval
      hints := st.hints ++ [anomalyHint st.baselines last] }
  else st

/-- One battery sample less of a pending boost. -/
def BoostState.countDown (st : BoostState) : BoostState :=
  if st.boosted > 0 then
    let st := { st with boosted := st.boosted - 1 }
    if st.boosted = 0 then { st with batteryInterval := st.baseInterval } else st
  else st

/-- What arrives at the writer: a battery read whose line may fail to be written, anything of
another collector, or a sample that is dropped in a pause. -/
inductive Arrival where
  | battery (res : Except String BatteryRaw) (written : Bool)
  | other
  | dropped

/-- A failed read counts nothing down, and a line that is not written ends the session. -/
def BoostState.handleBattery (st : BoostState) : Arrival → BoostState
  | .battery (.ok raw) true =>
      (match raw.dischargeW.value with
      | some last => st.discharge last
      | none => st).countDown
  | _ => st

def BoostState.run (baseInterval : UInt64) (arrivals : List Arrival) : BoostState :=
  arrivals.foldl BoostState.handleBattery (.start baseInterval)

/-! ## The interval -/

/-- The interval is the boosted one exactly as long as a boost is pending. -/
structure Boosting (baseInterval : UInt64) (st : BoostState) : Prop where
  base : st.baseInterval = baseInterval
  interval : st.batteryInterval =
    if st.boosted = 0 then baseInterval else boostInterval baseInterval

variable {baseInterval : UInt64} {st : BoostState}

theorem boosting_start (baseInterval : UInt64) : Boosting baseInterval (.start baseInterval) :=
  ⟨rfl, rfl⟩

theorem Boosting.discharge (h : Boosting baseInterval st) (last : Binary64) :
    Boosting baseInterval (st.discharge last) := by
  unfold BoostState.discharge
  dsimp only
  split
  · exact ⟨h.base, congrArg boostInterval h.base⟩
  · exact ⟨h.base, h.interval⟩

theorem Boosting.countDown (h : Boosting baseInterval st) :
    Boosting baseInterval st.countDown := by
  unfold BoostState.countDown
  dsimp only
  split
  next hpending =>
    split
    next hlast => exact ⟨h.base, by rw [if_pos hlast]; exact h.base⟩
    next hmore =>
      refine ⟨h.base, ?_⟩
      rw [if_neg hmore]
      exact h.interval.trans (if_neg (Nat.pos_iff_ne_zero.mp hpending))
  · exact h

theorem Boosting.handleBattery (h : Boosting baseInterval st) (a : Arrival) :
    Boosting baseInterval (st.handleBattery a) := by
  unfold BoostState.handleBattery
  split
  · split
    · exact (h.discharge _).countDown
    · exact h.countDown
  · exact h

theorem boosting_run (baseInterval : UInt64) (arrivals : List Arrival) :
    Boosting baseInterval (.run baseInterval arrivals) := by
  induction arrivals using List.reverseRecOn with
  | nil => exact boosting_start baseInterval
  | append_singleton arrivals a ih =>
      rw [BoostState.run, List.foldl_append, List.foldl_cons, List.foldl_nil]
      exact ih.handleBattery a

/-! ## When a boost begins -/

/-- A battery sample that boosts. -/
def BoostState.Triggers (st : BoostState) (a : Arrival) : Prop :=
  ∃ raw last, a = .battery (.ok raw) true ∧ raw.dischargeW.value = some last ∧
    (st.enter last).deviates last = true

theorem countDown_eq (hnone : st.boosted = 0) : st.countDown = st := by
  rw [BoostState.countDown, if_neg (by omega)]

/-- A boost is pending after an arrival that triggers it. -/
theorem pending_of_triggers {a : Arrival} (h : st.Triggers a) :
    (st.handleBattery a).boosted ≠ 0 := by
  obtain ⟨raw, last, rfl, hlast, hdeviates⟩ := h
  have hseven : (st.discharge last).countDown.boosted = 7 := by
    rw [BoostState.discharge, if_pos hdeviates]
    rfl
  simp only [BoostState.handleBattery, hlast, hseven]
  decide

/-- No other arrival begins one. -/
theorem quiet_of_not_triggers {a : Arrival} (hquiet : st.boosted = 0) (h : ¬ st.Triggers a) :
    (st.handleBattery a).boosted = 0 := by
  unfold BoostState.handleBattery
  split
  next raw =>
    cases hlast : raw.dischargeW.value with
    | none =>
        dsimp only
        rw [countDown_eq hquiet]
        exact hquiet
    | some last =>
        dsimp only
        have hcalm : ¬ (st.enter last).deviates last = true :=
          fun hdeviates => h ⟨raw, last, rfl, hlast, hdeviates⟩
        have henter : st.discharge last = st.enter last := by
          rw [BoostState.discharge]
          exact if_neg hcalm
        have hentered : (st.enter last).boosted = 0 := hquiet
        rw [henter, countDown_eq hentered]
        exact hentered
  · exact hquiet

theorem boostInterval_le_iff : boostInterval baseInterval ≤ baseInterval ↔ 250 ≤ baseInterval := by
  unfold boostInterval
  rw [UInt64.le_iff_toNat_le, UInt64.le_iff_toNat_le]
  have hquarter : (baseInterval / 4).toNat = baseInterval.toNat / 4 := by
    rw [UInt64.toNat_div]
    rfl
  have hbound : (250 : UInt64).toNat = 250 := rfl
  rw [show max (baseInterval / 4) 250 = if baseInterval / 4 ≤ 250 then 250 else baseInterval / 4
    from rfl]
  split
  next hle => rfl
  next hgt =>
    rw [UInt64.le_iff_toNat_le, hquarter, hbound] at hgt
    rw [hquarter, hbound]
    omega

/-- The worker is never slower than configured, and as configured without a boost. -/
def Paced (st : BoostState) : Prop :=
  st.batteryInterval ≤ st.baseInterval ∧
    (st.boosted = 0 → st.batteryInterval = st.baseInterval)

theorem Boosting.paced_now (h : Boosting baseInterval st) :
    Paced st ↔ st.boosted = 0 ∨ 250 ≤ baseInterval := by
  rw [Paced, h.base, h.interval]
  by_cases hquiet : st.boosted = 0
  · simp [hquiet]
  · simp only [hquiet, if_false, false_imp_iff, and_true, false_or]
    exact boostInterval_le_iff

theorem run_take_succ (baseInterval : UInt64) {arrivals : List Arrival} {n : Nat} {a : Arrival}
    (ha : arrivals[n]? = some a) :
    BoostState.run baseInterval (arrivals.take (n + 1)) =
      (BoostState.run baseInterval (arrivals.take n)).handleBattery a := by
  rw [BoostState.run, List.take_add_one, ha, Option.toList_some, List.foldl_append]
  rfl

/-- Without a trigger no boost is ever pending. -/
theorem quiet_run (baseInterval : UInt64) {arrivals : List Arrival}
    (hcalm : ∀ (n : Nat) (a : Arrival), arrivals[n]? = some a →
      ¬ (BoostState.run baseInterval (arrivals.take n)).Triggers a) (n : Nat) :
    (BoostState.run baseInterval (arrivals.take n)).boosted = 0 := by
  induction n with
  | zero => rfl
  | succ n ih =>
      cases ha : arrivals[n]? with
      | none =>
          rw [List.take_add_one, ha, Option.toList_none, List.append_nil]
          exact ih
      | some a =>
          rw [run_take_succ baseInterval ha]
          exact quiet_of_not_triggers ih (hcalm n a ha)

/-- In every state of a run the battery is sampled at least as often as configured, and exactly
as often without a pending boost, if and only if the configured interval is a quarter of a second
at least or no sample of the run triggers a boost. -/
theorem paced_iff (baseInterval : UInt64) (arrivals : List Arrival) :
    (∀ n : Nat, Paced (.run baseInterval (arrivals.take n))) ↔
      250 ≤ baseInterval ∨ ∀ (n : Nat) (a : Arrival), arrivals[n]? = some a →
        ¬ (BoostState.run baseInterval (arrivals.take n)).Triggers a := by
  constructor
  · intro hpaced
    rw [or_iff_not_imp_left]
    intro hslow n a ha htriggers
    have hpending := pending_of_triggers htriggers
    rw [← run_take_succ baseInterval ha] at hpending
    rcases (boosting_run baseInterval _).paced_now.mp (hpaced (n + 1)) with hquiet | hfast
    · exact hpending hquiet
    · exact hslow hfast
  · intro h n
    apply (boosting_run baseInterval _).paced_now.mpr
    rcases h with hfast | hcalm
    · exact Or.inr hfast
    · exact Or.inl (quiet_run baseInterval hcalm n)

/-- A battery that discharges at a rate in milliwatts. -/
def dischargingAt (rateMw : Int32) : Arrival :=
  .battery (.ok ⟨.measured false, .measured 80, true, .measured 50000, .measured 40000,
    .measured rateMw⟩) true

/-- Nine samples at one watt and one at five. -/
def surge : List Arrival := List.replicate 9 (dischargingAt (-1000)) ++ [dischargingAt (-5000)]

theorem not_paced_surge : ¬ Paced (.run 100 surge) := by
  have hboosted : (BoostState.run 100 surge).boosted = 7 := by decide +kernel
  rw [(boosting_run 100 surge).paced_now, hboosted]
  decide

end PowerForensics.Monitor
