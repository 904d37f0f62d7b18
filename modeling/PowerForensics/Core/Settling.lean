import PowerForensics.Binary64.Monotone
import PowerForensics.Core.Phases

/-! # What settling drops

The detector counts the known readings that belong to a transient; what is dropped is everything
before a time. The two agree when the time falls between the last reading of the transient and
the first one after it, which depends on when the session starts and on which of its samples
have a reading.
-/

namespace PowerForensics.Analysis

open Binary64 Session

/-! ## Filters and prefixes -/

/-- A filter drops a prefix exactly when it refuses all of the prefix and nothing else. -/
theorem filter_eq_drop_iff {α : Type} (p : α → Bool) (l : List α) (k : Nat) :
    l.filter p = l.drop k ↔ (∀ x ∈ l.take k, p x = false) ∧ ∀ x ∈ l.drop k, p x = true := by
  have hsplit : l.filter p = (l.take k).filter p ++ (l.drop k).filter p := by
    rw [← List.filter_append, List.take_append_drop]
  constructor
  · intro heq
    have hrest : ∀ x ∈ l.drop k, p x = true := by
      intro x hx
      rw [← heq] at hx
      exact (List.mem_filter.mp hx).2
    rw [hsplit, List.filter_eq_self.mpr hrest, List.append_left_eq_self,
      List.filter_eq_nil_iff] at heq
    exact ⟨fun x hx => Bool.eq_false_iff.mpr (heq x hx), hrest⟩
  · rintro ⟨hfront, hrest⟩
    rw [hsplit, List.filter_eq_self.mpr hrest, List.append_left_eq_self, List.filter_eq_nil_iff]
    exact fun x hx => Bool.eq_false_iff.mp (hfront x hx)

/-! ## The readings of a session -/

/-- The samples of the battery that have a discharge. -/
def readings (s : SessionData) : List BatteryPoint :=
  s.battery.filter fun p => p.discharge.val.isSome

theorem discharges_readings (s : SessionData) :
    (readings s).filterMap (fun p => p.discharge.val) = discharges s := by
  rw [readings, discharges, List.filterMap_filter]
  congr 1
  funext p
  cases p.discharge.val <;> simp

/-- How many readings belong to the transient. -/
def settleEnd (s : SessionData) : Nat :=
  detectSettleEnd (discharges s) (medianInterval (batteryTimes s))

/-- The time before which everything is dropped. -/
def settleTime (s : SessionData) : Binary64 :=
  .ofNat (settleEnd s) * Max.max (medianInterval (batteryTimes s)) 0.05

/-- The time lies between the transient and the readings after it. -/
def Between (s : SessionData) : Prop :=
  (∀ p ∈ (readings s).take (settleEnd s), ¬settleTime s ≤ p.t) ∧
    ∀ p ∈ (readings s).drop (settleEnd s), settleTime s ≤ p.t

theorem trimSecs_auto (s : SessionData) : trimSecs s 0.0 = settleTime s := by
  have hzero : ¬(0.0 : Binary64) < 0.0 := fun h => lt_irrefl _ h.2.2
  rw [trimSecs, if_neg hzero]
  rfl

theorem readings_trimSettle (s : SessionData) {time : Binary64} (htime : ¬time ≤ (0.0 : Binary64)) :
    readings (trimSettle s time) = (readings s).filter fun p => time ≤ p.t := by
  rw [trimSettle, if_neg htime]
  exact List.filter_comm _ _ _

theorem floor_interval : (0.0 : Binary64) < 0.05 ∧ one ≤ units (1.0 : Binary64).magnitude ∧
    (1.0 : Binary64).negative = false := by
  decide +kernel

theorem interval_pos (dt : Binary64) : (0.0 : Binary64) < Max.max dt 0.05 := by
  have hfloor := floor_interval.1
  rw [max_eq]
  split
  · exact hfloor
  · next hdt =>
    have hnumber : dt.isNaN = false := Bool.eq_false_iff.mpr hdt
    rw [hfloor.2.1, if_neg Bool.false_ne_true]
    split
    · exact hfloor
    · next hle =>
      exact lt_of_lt_of_le_number hfloor (le_of_not_lt_number hnumber hfloor.2.1 hle)

/-- Nothing is dropped only if nothing belongs to a transient. -/
theorem settleEnd_eq_zero {s : SessionData} (htime : settleTime s ≤ (0.0 : Binary64)) :
    settleEnd s = 0 := by
  by_contra hne
  have hinterval := interval_pos (medianInterval (batteryTimes s))
  have hone : (1.0 : Binary64) ≤ .ofNat (settleEnd s) := one_le_ofNat (Nat.pos_of_ne_zero hne)
  have hplus : Plus (.ofNat (settleEnd s)) := plus_ofUnits _ _
  have hunits : one ≤ units (ofNat (settleEnd s)).magnitude := by
    have hmag : (1.0 : Binary64).magnitude ≤ (ofNat (settleEnd s)).magnitude :=
      (Plus.le_iff ⟨hone.1, floor_interval.2.2⟩ hplus).mp hone
    exact floor_interval.2.1.trans (units_mono hmag)
  have hle := le_mul_of_one_le hplus hunits (plus_of_lt hinterval)
    (magnitude_ne_zero_of_lt hinterval)
  have hlt := lt_of_lt_of_le_number hinterval hle
  exact absurd (lt_of_lt_of_le_number hlt htime).2.2 (lt_irrefl _)

theorem readings_settled (s : SessionData) :
    readings (settled s 0.0) = (readings s).drop (settleEnd s) ↔
      settleTime s ≤ (0.0 : Binary64) ∨ Between s := by
  rw [settled, trimSecs_auto]
  by_cases htime : settleTime s ≤ (0.0 : Binary64)
  · have hnone : trimSettle s (settleTime s) = s := by rw [trimSettle, if_pos htime]
    rw [hnone, settleEnd_eq_zero htime]
    simp [htime]
  · rw [readings_trimSettle s htime, filter_eq_drop_iff]
    simp only [htime, false_or, Between, decide_eq_false_iff_not, decide_eq_true_eq]

theorem discharges_drop (s : SessionData) (k : Nat) :
    ((readings s).drop k).filterMap (fun p => p.discharge.val) = (discharges s).drop k := by
  have hknown : ∀ p ∈ readings s, p.discharge.val.isSome := fun p hp => (List.mem_filter.mp hp).2
  rw [← discharges_readings]
  generalize readings s = points at hknown ⊢
  induction points generalizing k with
  | nil => simp
  | cons p points ih =>
      have hrest := fun k => ih k fun q hq => hknown q (List.mem_cons_of_mem _ hq)
      obtain ⟨watts, hwatts⟩ := Option.isSome_iff_exists.mp (hknown p List.mem_cons_self)
      cases k with
      | zero => rfl
      | succ k => simp [hwatts, hrest k]

/-- A comparison with settled sessions measures the readings after the transient and no others
exactly when there is no transient or the time before which all is dropped lies between the two;
what it measures then are the discharges that the detector left. -/
theorem readings_settled_iff (s : SessionData) :
    (readings (settled s 0.0) = (readings s).drop (settleEnd s) ↔
      settleTime s ≤ (0.0 : Binary64) ∨ Between s) ∧
    (settleTime s ≤ (0.0 : Binary64) ∨ Between s →
      discharges (settled s 0.0) = (discharges s).drop (settleEnd s)) := by
  refine ⟨readings_settled s, fun h => ?_⟩
  rw [← discharges_readings, (readings_settled s).mpr h, discharges_drop]

/-! ## Late and interrupted sessions -/

def readingAt (t watts : Binary64) : BatteryPoint :=
  { (default : BatteryPoint) with t, discharge := .measured watts "battery" default }

def silentAt (t : Binary64) : BatteryPoint := { (default : BatteryPoint) with t }

/-- One reading of a transient and seven after it, every two seconds from some time on. -/
def transientFrom (start : Nat) : List BatteryPoint :=
  readingAt (.ofNat start) 30.0 :: readingAt (.ofNat (start + 2)) 30.0 ::
    [4, 6, 8, 10, 12, 14].map fun offset => readingAt (.ofNat (start + offset)) 10.0

/-- A session whose clock has run for a while before its first sample. -/
def lateSession : SessionData := { (default : SessionData) with battery := transientFrom 100 }

/-- A session whose battery has no reading at first. -/
def interruptedSession : SessionData :=
  { (default : SessionData) with
    battery := [silentAt 0.0, silentAt 2.0, silentAt 4.0] ++ transientFrom 6 }

theorem late_readings :
    settleEnd lateSession = 1 ∧ (readings lateSession).length = 8 ∧
      (readings (settled lateSession 0.0)).length = 8 ∧
    settleEnd interruptedSession = 1 ∧ (readings interruptedSession).length = 8 ∧
      (readings (settled interruptedSession 0.0)).length = 8 := by
  decide +kernel

/-- In both the transient is measured. -/
theorem transient_survives :
    readings (settled lateSession 0.0) ≠ (readings lateSession).drop (settleEnd lateSession) ∧
      readings (settled interruptedSession 0.0) ≠
        (readings interruptedSession).drop (settleEnd interruptedSession) := by
  obtain ⟨hend, hall, hkept, hend', hall', hkept'⟩ := late_readings
  constructor
  · intro heq
    have hlength := congrArg List.length heq
    rw [List.length_drop, hend, hall, hkept] at hlength
    omega
  · intro heq
    have hlength := congrArg List.length heq
    rw [List.length_drop, hend', hall', hkept'] at hlength
    omega

end PowerForensics.Analysis
