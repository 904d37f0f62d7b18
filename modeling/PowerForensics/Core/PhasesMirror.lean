import PowerForensics.Binary64.Alike
import PowerForensics.Core.Phases

/-! # The comparison the other way round

What the two sides have in common does not depend on which of them is called the first one:
their shortest time, their widest spread, and whether anything confounds them. What is taken
from one side to the other changes its sign.
-/

namespace PowerForensics.Analysis

open Binary64 Session

/-- One comparison is the other with the sides exchanged. -/
structure Exchanged (x y : Comparison) : Prop where
  confidence : y.confidence = x.confidence
  validity : y.validity = x.validity
  deltaW : Option.Rel Opposite x.deltaW y.deltaW
  projected : Option.Rel Opposite x.projectedDeltaMin y.projectedDeltaMin
  medians : y.medA = x.medB ∧ y.medB = x.medA
  runtimes : y.runtimeAH = x.runtimeBH ∧ y.runtimeBH = x.runtimeAH
  norms : y.runtimeNormAH = x.runtimeNormBH ∧ y.runtimeNormBH = x.runtimeNormAH

/-! ## Differences -/

/-- Two medians that are known are positive. -/
def Positive (med : Option Binary64) : Prop := ∀ m ∈ med, (0.0 : Binary64) < m

theorem deltaW_exchange {x y : Option Binary64} (hx : Positive x) (hy : Positive y) :
    Option.Rel Opposite (deltaW x y) (deltaW y x) := by
  cases x with
  | none => cases y <;> exact .none
  | some a =>
  cases y with
  | none => exact .none
  | some b =>
      have ha : (0.0 : Binary64) < a := hx a rfl
      have hb : (0.0 : Binary64) < b := hy b rfl
      simp only [deltaW, if_pos ha, if_pos hb]
      exact .some (sub_exchange b a)

theorem distance_exchange (x y : Option Binary64) : distance x y = distance y x := by
  cases x with
  | none => cases y <;> rfl
  | some a =>
  cases y with
  | none => rfl
  | some b => simp only [distance, (sub_exchange b a).abs_eq]

theorem projectedMinutes_exchange (x y : Option Binary64) :
    Option.Rel Opposite (projectedMinutes x y) (projectedMinutes y x) := by
  cases x with
  | none => cases y <;> exact .none
  | some a =>
  cases y with
  | none => exact .none
  | some b => exact .some ((sub_exchange b a).mul_right 60.0)

theorem smallerOf_exchange (x y : Option Binary64) :
    Option.Rel Alike (smallerOf x y) (smallerOf y x) := by
  cases x with
  | none => cases y <;> exact .none
  | some a =>
  cases y with
  | none => exact .none
  | some b => exact .some (alike_min_comm a b)

theorem socConfounder_exchange (a b : SessionData) :
    (socConfounder a b).toList = [] ↔ (socConfounder b a).toList = [] := by
  unfold socConfounder
  cases chargeMed a with
  | none => cases chargeMed b <;> exact Iff.rfl
  | some x =>
  cases chargeMed b with
  | none => exact Iff.rfl
  | some y =>
      simp only [(sub_exchange y x).abs_eq]
      split <;> simp

/-! ## Confounders -/

theorem sideConfounders_eq_nil (q : CaptureQuality) (side side' : String) :
    sideConfounders q side = [] ↔ sideConfounders q side' = [] := by
  have hshort : freshnessShortfall q side = none ↔ freshnessShortfall q side' = none := by
    unfold freshnessShortfall
    cases q.observedHz with
    | none => exact Iff.rfl
    | some hz =>
        simp only
        split
        · exact Iff.rfl
        · split <;> simp
  simp only [sideConfounders, List.append_eq_nil_iff, Option.toList_eq_nil_iff, hshort,
    ite_eq_right_iff, List.cons_ne_nil]

/-- A filter lets through what is alike, where its test does not tell it apart. -/
theorem filter_toList_eq_nil {R : Binary64 → Binary64 → Prop} {x y : Option Binary64}
    (h : Option.Rel R x y) {p q : Binary64 → Bool} (hp : ∀ a b, R a b → p a = q b)
    (f g : Binary64 → String) :
    (x.filter p).toList.map f = [] ↔ (y.filter q).toList.map g = [] := by
  cases h with
  | none => simp
  | @some a b hab =>
      simp only [Option.filter, hp a b hab]
      split <;> simp

theorem thinCapture_exchange (a b : CaptureQuality) {d d' : Binary64} (hd : Alike d d')
    (effN : Nat) : thinCapture a b d effN = [] ↔ thinCapture b a d' effN = [] := by
  simp only [thinCapture, List.append_eq_nil_iff, ite_eq_right_iff, List.cons_ne_nil,
    hd.gt_iff 5.0]

theorem jointConfounders_exchange {spread spread' noise noise' : Binary64}
    {coverage coverage' effect effect' cpu : Option Binary64} (hspread : Alike spread spread')
    (hnoise : Alike noise noise') (hcoverage : Option.Rel Alike coverage coverage')
    (heffect : Option.Rel Opposite effect effect') :
    jointConfounders spread coverage effect cpu noise = [] ↔
      jointConfounders spread' coverage' effect' cpu noise' = [] := by
  have hlow := filter_toList_eq_nil hcoverage (p := fun c => c < (0.7 : Binary64))
    (q := fun c => c < (0.7 : Binary64)) (fun a b h => decide_eq_decide.mpr (h.gt_iff 0.7))
  have hsmall := filter_toList_eq_nil heffect (p := fun e => e.abs < noise)
    (q := fun e => e.abs < noise')
    (fun a b h => decide_eq_decide.mpr (by rw [h.abs_eq, hnoise.lt_iff]))
  simp only [jointConfounders, List.append_eq_nil_iff, ite_eq_right_iff, List.cons_ne_nil,
    hspread.le_iff 0.6]
  rw [hlow, hsmall, List.map_eq_nil_iff]

/-! ## Confidence -/

theorem all_of_rel {x y : Option Binary64} (h : Option.Rel Alike x y) (bound : Binary64) :
    (x.all fun c => bound ≤ c) = y.all fun c => bound ≤ c := by
  cases h with
  | none => rfl
  | @some a b hab => exact decide_eq_decide.mpr (hab.le_iff bound)

theorem baseConfidence_exchange {d d' s s' : Binary64} {c c' : Option Binary64} (hd : Alike d d')
    (hs : Alike s s') (hc : Option.Rel Alike c c') (effN : Nat) :
    baseConfidence d effN s c = baseConfidence d' effN s' c' := by
  simp only [baseConfidence, hd.le_iff, hs.gt_iff, all_of_rel hc]

section Captures

variable (a b : CaptureQuality) {effect effect' : Option Binary64} (cpu : Option Binary64)

/-- The confidence between two captures before anything is taken away. -/
def jointBase : Confidence :=
  baseConfidence (Min.min a.durationSecs b.durationSecs) (Min.min a.effectiveN b.effectiveN)
    (Max.max a.spread b.spread) (smallerOf a.coverage b.coverage)

theorem level_eq (effect : Option Binary64) : (abConfidence a b effect cpu).level =
    if (abConfidence a b effect cpu).confounders = [] then jointBase a b
      else (jointBase a b).downgraded := rfl

/-- Whether two captures are confounded, and how far they are trusted. -/
theorem abConfidence_exchange (heffect : Option.Rel Opposite effect effect') :
    ((abConfidence a b effect cpu).confounders = [] ↔
      (abConfidence b a effect' cpu).confounders = []) ∧
    (abConfidence b a effect' cpu).level = (abConfidence a b effect cpu).level := by
  have hduration := alike_min_comm a.durationSecs b.durationSecs
  have hspread := alike_max_comm a.spread b.spread
  have hnoise := alike_max_comm a.absSpreadW b.absSpreadW
  have hcoverage := smallerOf_exchange a.coverage b.coverage
  have hsides : sideConfounders a "A" ++ sideConfounders b "B" = [] ↔
      sideConfounders b "A" ++ sideConfounders a "B" = [] := by
    rw [List.append_eq_nil_iff, List.append_eq_nil_iff, and_comm,
      sideConfounders_eq_nil b "B" "A", sideConfounders_eq_nil a "A" "B"]
  have hconfounders : (abConfidence a b effect cpu).confounders = [] ↔
      (abConfidence b a effect' cpu).confounders = [] := by
    simp only [abConfidence, min_comm b.effectiveN]
    refine (List.append_eq_nil_iff.trans ?_).trans List.append_eq_nil_iff.symm
    refine and_congr ?_ (jointConfounders_exchange hspread hnoise hcoverage heffect)
    refine (List.append_eq_nil_iff.trans ?_).trans List.append_eq_nil_iff.symm
    exact and_congr (thinCapture_exchange a b hduration _) hsides
  refine ⟨hconfounders, ?_⟩
  have hbase : jointBase a b = jointBase b a := by
    rw [jointBase, jointBase, min_comm b.effectiveN]
    exact baseConfidence_exchange hduration hspread hcoverage _
  rw [level_eq, level_eq, hbase]
  exact if_congr hconfounders.symm rfl rfl

theorem comparisonValidity_exchange (medA medB : Option Binary64) {cs cs' : List String}
    (hcs : cs = [] ↔ cs' = []) (confidence : Confidence) :
    comparisonValidity medB medA b a cs' confidence =
      comparisonValidity medA medB a b cs confidence := by
  have hduration := (alike_min_comm b.durationSecs a.durationSecs).gt_iff 5.0
  refine if_congr ?_ rfl (if_congr ?_ rfl rfl)
  · rw [hduration]
    tauto
  · rw [ne_eq, ne_eq, hcs]

end Captures

/-! ## The comparison -/

theorem compareSettled_exchange {a b : SessionData} (ha : Positive (dischargeMedian a))
    (hb : Positive (dischargeMedian b)) : Exchanged (compareSettled a b) (compareSettled b a) := by
  have hdelta := deltaW_exchange ha hb
  obtain ⟨hconfounders, hlevel⟩ := abConfidence_exchange (captureQuality a (discharges a))
    (captureQuality b (discharges b)) (distance (cpuMed a) (cpuMed b)) hdelta
  have hcpu := distance_exchange (cpuMed b) (cpuMed a)
  refine ⟨?_, ?_, hdelta, projectedMinutes_exchange .., ⟨rfl, rfl⟩, ⟨rfl, rfl⟩, ⟨rfl, rfl⟩⟩
  · change (abConfidence _ _ _ (distance (cpuMed b) (cpuMed a))).level = _
    rw [hcpu]
    exact hlevel
  · change comparisonValidity _ _ _ _
      ((abConfidence _ _ _ (distance (cpuMed b) (cpuMed a))).confounders ++ _)
      (abConfidence _ _ _ (distance (cpuMed b) (cpuMed a))).level = _
    rw [hcpu, hlevel]
    refine comparisonValidity_exchange _ _ _ _ ?_ _
    rw [List.append_eq_nil_iff, List.append_eq_nil_iff, socConfounder_exchange a b, hconfounders]

/-- What the comparison of two sessions says of them does not depend on their order, and what it
takes from one to the other has the opposite sign. -/
theorem compareSessionsWithSettle_exchange (a b : SessionData) (settleS : Binary64)
    (ha : Positive (dischargeMedian (settled a settleS)))
    (hb : Positive (dischargeMedian (settled b settleS))) :
    Exchanged (compareSessionsWithSettle a b settleS) (compareSessionsWithSettle b a settleS) :=
  compareSettled_exchange ha hb

def drawing (t watts : Binary64) : BatteryPoint :=
  { (default : BatteryPoint) with t, discharge := .measured watts "battery" default }

/-- A session that settles from thirty watts to some lower power. -/
def settlingTo (watts : Binary64) : SessionData :=
  { (default : SessionData) with
    battery := [drawing 1.0 30.0, drawing 3.0 watts, drawing 4.0 watts] }

theorem settlingTo_exchange :
    Exchanged (compareSessionsWithSettle (settlingTo 10.0) (settlingTo 8.0) 2.0)
      (compareSessionsWithSettle (settlingTo 8.0) (settlingTo 10.0) 2.0) :=
  compareSessionsWithSettle_exchange _ _ _ (by unfold Positive; decide +kernel)
    (by unfold Positive; decide +kernel)

end PowerForensics.Analysis
