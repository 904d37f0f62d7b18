import Mathlib.Data.List.Forall2
import PowerForensics.Binary64.Alike
import PowerForensics.Core.CompareRanges

/-! # The comparison the other way round

What a comparison gives when its sides are exchanged. Every number it takes is symmetric up to
the sign of a difference and up to which of two zeros it is, so levels, reliability and ranking
are the same. The caveat about recovery asks one footer before the other, and a difference that
is not a number has no sign to turn around.
-/

namespace PowerForensics.Compare

open Analyze Session Binary64

/-! ## Lists in step -/

section InStep

variable {α β γ : Type*} {R : β → β → Prop}

/-- Two choices from one list that leave out the same elements are related element by
element. -/
theorem forall₂_filterMap_iff {f g : α → Option β} {l : List α}
    (hsome : ∀ x ∈ l, (f x).isSome = (g x).isSome) :
    List.Forall₂ R (l.filterMap f) (l.filterMap g) ↔ ∀ x ∈ l, Option.Rel R (f x) (g x) := by
  induction l with
  | nil => simp
  | cons x l ih =>
      have hrest := ih fun y hy => hsome y (List.mem_cons_of_mem x hy)
      have hfirst := hsome x List.mem_cons_self
      cases hf : f x with
      | none =>
          rw [hf] at hfirst
          have hg : g x = none := by simpa using hfirst.symm
          simpa [hf, hg] using hrest
      | some y =>
          rw [hf] at hfirst
          obtain ⟨z, hg⟩ := Option.isSome_iff_exists.mp hfirst.symm
          simp [hf, hg, hrest]

theorem map_eq_of_forall₂ {f : β → γ} {l l' : List β} (h : List.Forall₂ R l l')
    (hf : ∀ x y, R x y → f x = f y) : l.map f = l'.map f := by
  induction h with
  | nil => rfl
  | cons hhead _ ih => rw [List.map_cons, List.map_cons, hf _ _ hhead, ih]

theorem forall₂_filter {p : β → Bool} {l l' : List β} (h : List.Forall₂ R l l')
    (hp : ∀ x y, R x y → p x = p y) : List.Forall₂ R (l.filter p) (l'.filter p) := by
  induction h with
  | nil => exact .nil
  | cons hhead _ ih =>
      rw [List.filter_cons, List.filter_cons, hp _ _ hhead]
      split
      · exact .cons hhead ih
      · exact ih

end InStep

/-! ## What is expected -/

/-- The direction seen from the other side. -/
def Direction.mirror : Direction → Direction
  | increased => decreased
  | decreased => increased
  | unchanged => unchanged
  | unavailable => unavailable
  | missingA => missingB
  | missingB => missingA

/-- The same metric, compared the other way round. -/
structure MirrorMetric (x y : MetricComparison) : Prop where
  metric : x.metric = y.metric
  comparability : x.comparability = y.comparability
  reliability : x.reliability.level = y.reliability.level
  delta : Option.Rel Opposite x.absoluteDelta y.absoluteDelta
  direction : y.direction = x.direction.mirror

/-- A caveat says that one of the sessions was recovered. -/
def HasRecovered (analysis : ComparisonAnalysis) : Prop :=
  ∃ f ∈ analysis.comparability.findings,
    f.metric = none ∧ (f.reason = recoveredText "A" ∨ f.reason = recoveredText "B")

/-- The same comparison, the other way round. -/
structure Mirrored (x y : ComparisonAnalysis) : Prop where
  overall : x.comparability.overall = y.comparability.overall
  metrics : List.Forall₂ MirrorMetric x.headlineMetrics y.headlineMetrics
  ranked : (x.rankedChanges.map fun r => (r.metric, r.relevance)) =
    y.rankedChanges.map fun r => (r.metric, r.relevance)
  recovered : HasRecovered x ↔ HasRecovered y

/-! ## Coverage, spread and noise -/

theorem jointCoverage_exchange (ra rb : ReliabilityInput) :
    Option.Rel Alike (jointCoverage ra rb) (jointCoverage rb ra) := by
  unfold jointCoverage
  cases ra.coverage <;> cases rb.coverage <;> simp [alike_min_comm]

theorem jointSpread_exchange (ra rb : ReliabilityInput) :
    Option.Rel Alike (jointSpread ra rb) (jointSpread rb ra) := by
  unfold jointSpread
  cases ra.spread <;> cases rb.spread <;> simp [alike_max_comm, Alike.refl]

theorem any_lt_of_rel {x y : Option Binary64} (h : Option.Rel Alike x y) (bound : Binary64) :
    x.any (· < bound) = y.any (· < bound) := by
  cases h with
  | none => rfl
  | some hxy => simpa using hxy.gt_iff bound

theorem getD_of_rel {x y : Option Binary64} (h : Option.Rel Alike x y) (z : Binary64) :
    Alike (x.getD z) (y.getD z) := by
  cases h with
  | none => exact Alike.refl z
  | some hxy => exact hxy

/-- The bounds below which a metric is called unchanged are all positive. -/
theorem threshold_pos : ∀ definition ∈ headline, (0.0 : Binary64) < definition.thresholdAbs := by
  decide +kernel

theorem noise_exchange {definition : HeadlineDef} (hdef : definition ∈ headline)
    (ra rb : ReliabilityInput) :
    Max.max definition.thresholdAbs ((jointSpread ra rb).getD 0.0) =
      Max.max definition.thresholdAbs ((jointSpread rb ra).getD 0.0) :=
  max_congr_of_pos (threshold_pos definition hdef)
    (getD_of_rel (jointSpread_exchange ra rb) 0.0)

/-- Of what is said about reliability, the level and the noise are symmetric. -/
theorem reliability_exchange {definition : HeadlineDef} (hdef : definition ∈ headline)
    {delta delta' : Option Binary64} (hdelta : Option.Rel Opposite delta delta')
    (ra rb : ReliabilityInput) :
    (reliability definition delta ra rb).level = (reliability definition delta' rb ra).level ∧
      (reliability definition delta ra rb).noiseFloor =
        (reliability definition delta' rb ra).noiseFloor := by
  have hnoise := noise_exchange hdef ra rb
  have hany := any_lt_of_rel (jointCoverage_exchange ra rb) weakCoverage
  simp only [reliability, min_comm rb.effectiveN]
  cases hdelta with
  | none => simp only [hnoise, and_self]
  | some hopposite =>
      simp only [← hnoise, ← hany, ← hopposite.abs_eq]
      split
      · exact ⟨rfl, rfl⟩
      split
      · exact ⟨rfl, rfl⟩
      split <;> exact ⟨rfl, rfl⟩

/-! ## Comparability -/

theorem coverageLevel_exchange (ma mb : Option MetricStat) :
    (coverageLevel ma mb).1 = (coverageLevel mb ma).1 := by
  unfold coverageLevel
  cases ma.bind fun m => m.stat.coverage with
  | none => cases mb.bind fun m => m.stat.coverage <;> rfl
  | some x =>
      cases mb.bind fun m => m.stat.coverage with
      | none => rfl
      | some y =>
          simp only [or_comm (a := y < weakCoverage), or_comm (a := y < lowCoverage)]
          split
          · rfl
          split <;> rfl

theorem powerSourceMismatch_exchange (a b : RangeContext) :
    powerSourceMismatch a b = powerSourceMismatch b a := by
  unfold powerSourceMismatch
  cases a.powerSource <;> cases b.powerSource <;> simp [eq_comm]

theorem chargeMismatch_exchange (key : String) (a b : ComparisonSide) :
    chargeMismatch key a b = chargeMismatch key b a := by
  unfold chargeMismatch
  cases charging a <;> cases charging b <;> cases discharging a <;> cases discharging b <;> rfl

theorem metricComparability_exchange (definition : HeadlineDef) (label label' : String)
    (a b : ComparisonSide) (ma mb : Option MetricStat) :
    (metricComparability definition label a b ma mb).1 =
      (metricComparability definition label' b a mb ma).1 := by
  simp only [metricComparability, and_comm (a := knownOf mb = 0),
    powerSourceMismatch_exchange b.context, chargeMismatch_exchange _ b]
  split
  · rfl
  split
  · rfl
  split
  · rfl
  split
  · split <;> rfl
  split
  · rfl
  · exact coverageLevel_exchange ma mb

/-! ## Metrics -/

/-- What a metric has in common with the same metric the other way round, whatever its
values are. -/
structure Exchanged (x y : MetricComparison) : Prop where
  metric : x.metric = y.metric
  label : x.label = y.label
  comparability : x.comparability = y.comparability
  level : x.reliability.level = y.reliability.level
  noiseFloor : x.reliability.noiseFloor = y.reliability.noiseFloor
  delta : Option.Rel Opposite x.absoluteDelta y.absoluteDelta

theorem deltaOf_exchange (a b : Option Binary64) :
    Option.Rel Opposite (deltaOf a b) (deltaOf b a) := by
  cases a <;> cases b <;> simp [deltaOf, sub_exchange]

theorem exchanged_compareMetric {definition : HeadlineDef} (hdef : definition ∈ headline)
    (a b : ComparisonSide) {ma mb : Option MetricStat}
    (hlabel : ma.map MetricStat.label = mb.map MetricStat.label) (ra rb : ReliabilityInput) :
    Exchanged (compareMetric definition a b ma mb ra rb)
      (compareMetric definition b a mb ma rb ra) := by
  have hdelta := deltaOf_exchange (medianOf ma) (medianOf mb)
  have hlevel := metricComparability_exchange definition
    (((ma.or mb).map MetricStat.label).getD definition.key)
    (((mb.or ma).map MetricStat.label).getD definition.key) a b ma mb
  have hreliability := reliability_exchange hdef hdelta ra rb
  refine ⟨rfl, ?_, hlevel, ?_, ?_, hdelta⟩
  · cases ma <;> cases mb <;> simp_all [compareMetric]
  · simp only [compareMetric, ← hlevel]
    split
    · rfl
    · exact hreliability.1
  · simp only [compareMetric, ← hlevel]
    split
    · rfl
    · exact hreliability.2

/-- Without a difference the direction says which side has no value. -/
theorem directionOf_none_mirror (definition : HeadlineDef) (knownA knownB : Nat) :
    directionOf definition none knownB knownA =
      (directionOf definition none knownA knownB).mirror := by
  by_cases ha : knownA = 0
  · by_cases hb : knownB = 0 <;> simp [directionOf, ha, hb, Direction.mirror]
  · by_cases hb : knownB = 0 <;> simp [directionOf, ha, hb, Direction.mirror]

/-- The direction of a difference is mirrored if and only if the difference is a number. -/
theorem directionOf_some_mirror_iff {definition : HeadlineDef} (hdef : definition ∈ headline)
    {x y : Binary64} (hopposite : Opposite x y) {knownA knownB : Nat} (ha : knownA ≠ 0)
    (hb : knownB ≠ 0) :
    directionOf definition (some y) knownB knownA =
        (directionOf definition (some x) knownA knownB).mirror ↔ x.isNaN = false := by
  simp only [directionOf, ha, hb, and_self, if_false, ← hopposite.abs_eq]
  cases hnan : x.isNaN with
  | true =>
      -- No comparison holds of a pattern that is not a number, so both directions go down.
      have hnan' : y.isNaN := by simpa [isNaN, hopposite.1] using hnan
      have habs : ¬x.abs < definition.thresholdAbs := fun h => by
        have hnumber : x.abs.isNaN = x.isNaN := by simp [isNaN]
        exact absurd (h.1.symm.trans (hnumber.trans hnan)) Bool.false_ne_true
      have hx : ¬(0.0 : Binary64) < x := fun h =>
        absurd (h.2.1.symm.trans hnan) Bool.false_ne_true
      have hy : ¬(0.0 : Binary64) < y := fun h =>
        absurd (h.2.1.symm.trans hnan') Bool.false_ne_true
      simp [habs, hx, hy, Direction.mirror]
  | false =>
      split
      · simp [Direction.mirror]
      · next habs =>
        have hmag := magnitude_ne_zero_of_not_lt (threshold_pos definition hdef) habs
        have hpos := hopposite.pos_iff hnan hmag
        by_cases hy : (0.0 : Binary64) < y
        · simp [hy, hpos, Direction.mirror]
        · simp [hy, hpos, Direction.mirror]

/-- Only a metric with values has a median. -/
def Witnessed (m : Option MetricStat) : Prop := (medianOf m).isSome → knownOf m ≠ 0

theorem directionOf_mirror_iff {definition : HeadlineDef} (hdef : definition ∈ headline)
    {ma mb : Option MetricStat} (hma : Witnessed ma) (hmb : Witnessed mb) :
    directionOf definition (deltaOf (medianOf mb) (medianOf ma)) (knownOf mb) (knownOf ma) =
        (directionOf definition (deltaOf (medianOf ma) (medianOf mb)) (knownOf ma)
          (knownOf mb)).mirror ↔
      ∀ x ∈ medianOf ma, ∀ y ∈ medianOf mb, Subtractable x y := by
  unfold Witnessed at hma hmb
  cases ha : medianOf ma with
  | none =>
      have hback : deltaOf (medianOf mb) none = none := by cases medianOf mb <;> rfl
      simpa [hback, deltaOf] using directionOf_none_mirror definition _ _
  | some x =>
      cases hb : medianOf mb with
      | none => simpa [deltaOf] using directionOf_none_mirror definition _ _
      | some y =>
          rw [ha] at hma
          rw [hb] at hmb
          have hiff := directionOf_some_mirror_iff hdef (sub_exchange y x) (hma rfl) (hmb rfl)
          rw [isNaN_sub_iff] at hiff
          simpa [deltaOf] using hiff

theorem headlineMetric_isSome (a b : ComparisonSide) (definition : HeadlineDef) :
    (headlineMetric a b definition).isSome = (headlineMetric b a definition).isSome := by
  simp only [headlineMetric, and_comm (a := knownOf (findMetric b.domains definition.key) = 0)]
  split
  · rfl
  · simp only [Option.isSome_some]

/-! ## Sides -/

/-- The domain, key and label of a series. -/
def headingOf (m : MetricSeries) : String × String × String := (m.domain, m.key, m.label)

theorem metricSeries_headings (s s' : SessionData) :
    (metricSeries s).map headingOf = (metricSeries s').map headingOf := by
  simp only [metricSeries, List.map_cons, List.map_nil, headingOf]

/-- A metric that is found comes from a series of its session. -/
theorem findMetric_domainBreakdown (s : SessionData) (fromMs toMs : UInt64) (key : String) :
    findMetric (domainBreakdown s fromMs toMs) key =
      ((["power", "battery", "cpu", "gpu", "display", "network", "storage"].flatMap fun domain =>
        (metricSeries s).filter fun m => m.domain = domain).find? fun m => m.key = key).map
          (metricStat fromMs toMs) := by
  simp only [findMetric, domainBreakdown, List.flatMap_map, ← List.map_flatMap, List.find?_map]
  rfl

theorem findMetric_label (s : SessionData) (fromMs toMs : UInt64) (key : String) :
    (findMetric (domainBreakdown s fromMs toMs) key).map MetricStat.label =
      ((["power", "battery", "cpu", "gpu", "display", "network", "storage"].flatMap fun domain =>
        ((metricSeries s).map headingOf).filter fun h => h.1 = domain).find?
          fun h => h.2.1 = key).map fun h => h.2.2 := by
  rw [findMetric_domainBreakdown]
  simp only [List.filter_map, ← List.map_flatMap, List.find?_map, Option.map_map]
  rfl

theorem stat_witnessed (window : List Sample) :
    (Stat.of window).median.isSome → (Stat.of window).known ≠ 0 := by
  unfold Stat.of
  dsimp only
  split
  · simp
  · next hvals => simpa using fun _ => hvals

theorem findMetric_witnessed (s : SessionData) (fromMs toMs : UInt64) (key : String) :
    Witnessed (findMetric (domainBreakdown s fromMs toMs) key) := by
  rw [findMetric_domainBreakdown, Witnessed, medianOf, knownOf]
  cases List.find? _ _ with
  | none => simp
  | some m => exact stat_witnessed (windowSamples m fromMs toMs)

/-- What one side has of a metric. -/
def ComparisonInput.metric (input : ComparisonInput) (definition : HeadlineDef) :
    Option MetricStat :=
  findMetric input.side.domains definition.key

theorem metric_witnessed (input : ComparisonInput) (definition : HeadlineDef) :
    Witnessed (input.metric definition) := findMetric_witnessed _ _ _ _

theorem metric_label (a b : ComparisonInput) (definition : HeadlineDef) :
    (a.metric definition).map MetricStat.label = (b.metric definition).map MetricStat.label := by
  have ha : (a.metric definition).map MetricStat.label = _ := findMetric_label a.session _ _ _
  have hb : (b.metric definition).map MetricStat.label = _ := findMetric_label b.session _ _ _
  rw [ha, hb, metricSeries_headings]

/-- The medians of both sides of a metric, where there are any, have a difference that is a
number. -/
def NumericDelta (a b : ComparisonInput) (definition : HeadlineDef) : Prop :=
  ∀ x ∈ medianOf (a.metric definition), ∀ y ∈ medianOf (b.metric definition), Subtractable x y

theorem exchanged_headlineMetric (a b : ComparisonInput) {definition : HeadlineDef}
    (hdef : definition ∈ headline) :
    Option.Rel Exchanged (headlineMetric a.side b.side definition)
      (headlineMetric b.side a.side definition) := by
  simp only [headlineMetric,
    and_comm (a := knownOf (findMetric b.side.domains definition.key) = 0)]
  split
  · exact .none
  · exact .some (exchanged_compareMetric hdef a.side b.side (metric_label a b definition) _ _)

theorem mirrorMetric_iff {x y : MetricComparison} (h : Exchanged x y) :
    MirrorMetric x y ↔ y.direction = x.direction.mirror :=
  ⟨MirrorMetric.direction, fun hdirection => ⟨h.1, h.3, h.4, h.6, hdirection⟩⟩

theorem mirrorMetric_headlineMetric_iff (a b : ComparisonInput) {definition : HeadlineDef}
    (hdef : definition ∈ headline) :
    Option.Rel MirrorMetric (headlineMetric a.side b.side definition)
        (headlineMetric b.side a.side definition) ↔ NumericDelta a b definition := by
  have ha := metric_witnessed a definition
  have hb := metric_witnessed b definition
  simp only [headlineMetric,
    and_comm (a := knownOf (findMetric b.side.domains definition.key) = 0)]
  split
  · next hknown =>
    refine ⟨fun _ x hx _ _ => ?_, fun _ => .none⟩
    exact absurd hknown.1 (ha (Option.isSome_of_mem hx))
  · have hexchanged := exchanged_compareMetric hdef a.side b.side (metric_label a b definition)
      (reliabilityInput (a.side.series.find? fun m => m.key = definition.key) a.side.fromMs
        a.side.toMs)
      (reliabilityInput (b.side.series.find? fun m => m.key = definition.key) b.side.fromMs
        b.side.toMs)
    rw [Option.rel_some_some]
    exact (mirrorMetric_iff hexchanged).trans (directionOf_mirror_iff hdef ha hb)

/-! ## Ranking -/

/-- What a difference is ranked by, and its name. -/
structure RankKey where
  metric : String
  relevance : Binary64
  size : Binary64
  label : String

def rankKey (r : RankedDifference) : RankKey := ⟨r.metric, r.relevance, r.delta.abs, r.label⟩

def rankKeyOrder (x y : RankKey) : Ordering :=
  ((y.relevance.totalCmp x.relevance).then (y.size.totalCmp x.size)).then
    (compare x.label y.label)

theorem isSome_of_rel {x y : Option Binary64} (h : Option.Rel Opposite x y) :
    x.isSome = y.isSome := by
  cases h <;> rfl

theorem abs_getD_of_rel {x y : Option Binary64} (h : Option.Rel Opposite x y) :
    (x.getD 0.0).abs = (y.getD 0.0).abs := by
  cases h with
  | none => rfl
  | some hopposite => exact hopposite.abs_eq

theorem rankable_exchange {x y : MetricComparison} (h : Exchanged x y) :
    rankable x = rankable y := by
  simp only [rankable, h.comparability, h.level, isSome_of_rel h.delta]

theorem rankKey_exchange {x y : MetricComparison} (h : Exchanged x y) :
    rankKey (rankedDifference x) = rankKey (rankedDifference y) := by
  simp only [rankKey, rankedDifference, abs_getD_of_rel h.delta, h.metric, h.label, h.noiseFloor]

/-- The ranking of exchanged metrics puts them in the same order. -/
theorem rankedChanges_exchange {metrics metrics' : List MetricComparison}
    (h : List.Forall₂ Exchanged metrics metrics') :
    (rankedChanges metrics).map rankKey = (rankedChanges metrics').map rankKey := by
  have hsort : ∀ ms, (rankedChanges ms).map rankKey =
      ((ms.filter rankable).map fun m => rankKey (rankedDifference m)).insertionSort
        fun x y => rankKeyOrder x y ≠ .gt := by
    intro ms
    rw [rankedChanges, List.map_insertionSort (fun x y => rankOrder x y ≠ .gt)
      (fun x y => rankKeyOrder x y ≠ .gt) rankKey _ fun _ _ _ _ => Iff.rfl, List.map_map]
    rfl
  rw [hsort, hsort, map_eq_of_forall₂ (forall₂_filter h fun _ _ => rankable_exchange)
    fun _ _ => rankKey_exchange]

/-! ## Findings -/

def levelsOf (findings : List ComparabilityFinding) : List ComparabilityLevel :=
  findings.map ComparabilityFinding.level

/-- The levels of a finding that is made on a condition. -/
theorem levelsOf_ite (condition : Prop) [Decidable condition] (metric : Option String)
    (level : ComparabilityLevel) (reason : String) :
    levelsOf (if condition then [⟨metric, level, reason⟩] else []) =
      if condition then [level] else [] := by
  split <;> rfl

theorem collectorFinding_levels (a b : ComparisonSide) :
    levelsOf (collectorFinding a b) = levelsOf (collectorFinding b a) := by
  simp only [collectorFinding, levelsOf_ite, ne_comm (a := observedCollectors b.session)]

theorem coverageFinding_levels (a b : ComparisonSide) :
    levelsOf (coverageFinding a b) = levelsOf (coverageFinding b a) := by
  simp only [coverageFinding, levelsOf_ite,
    or_comm (a := (b.coverage.any (· < weakCoverage)) = true)]

theorem lt_ratioOf_comm (bound x y : Binary64) : bound < ratioOf x y ↔ bound < ratioOf y x :=
  (alike_max_comm (x / y) (y / x)).lt_iff bound

theorem cadenceFinding_levels (a b : ComparisonSide) :
    levelsOf (cadenceFinding a b) = levelsOf (cadenceFinding b a) := by
  unfold cadenceFinding
  cases a.context.effectiveCadenceMs with
  | none => cases b.context.effectiveCadenceMs <;> rfl
  | some ca =>
      cases b.context.effectiveCadenceMs with
      | none => rfl
      | some cb =>
          simp only [levelsOf_ite, lt_ratioOf_comm 3.0 cb, and_left_comm (a := 0.0 < cb)]

theorem sourceFinding_levels (a b : ComparisonSide) :
    levelsOf (sourceFinding a b) = levelsOf (sourceFinding b a) := by
  unfold sourceFinding
  cases a.context.powerSource with
  | none => cases b.context.powerSource <;> rfl
  | some sa =>
      cases b.context.powerSource with
      | none => rfl
      | some sb => simp only [levelsOf_ite, ne_comm (a := sb)]

theorem durationFinding_levels (a b : ComparisonSide) :
    levelsOf (durationFinding a b) = levelsOf (durationFinding b a) := by
  simp only [durationFinding, levelsOf_ite, lt_ratioOf_comm 1.5 (durationSecs b),
    and_left_comm (a := 0.0 < durationSecs b)]

/-- What the footers say about recovery, the one of the first side before the other. -/
def recoveredOf (a b : ComparisonSide) : Option Bool :=
  (sessionRecovered a.session).or (sessionRecovered b.session)

theorem recoveredFinding_levels {a b : ComparisonSide} (h : recoveredOf a b = recoveredOf b a) :
    levelsOf (recoveredFinding a b) = levelsOf (recoveredFinding b a) := by
  unfold recoveredOf at h
  simp only [recoveredFinding, h]
  cases (sessionRecovered b.session).or (sessionRecovered a.session) with
  | none => rfl
  | some recovered => simp only [levelsOf_ite]

theorem comparisonFindings_levels {a b : ComparisonSide} (h : recoveredOf a b = recoveredOf b a) :
    levelsOf (comparisonFindings a b) = levelsOf (comparisonFindings b a) := by
  have happend : ∀ xs ys, levelsOf (xs ++ ys) = levelsOf xs ++ levelsOf ys :=
    fun _ _ => List.map_append
  simp only [comparisonFindings, happend, collectorFinding_levels a, coverageFinding_levels a,
    cadenceFinding_levels a, sourceFinding_levels a, durationFinding_levels a,
    recoveredFinding_levels h]

/-- The level of the whole is symmetric if the footers are. -/
theorem overallLevel_exchange {a b : ComparisonSide} (h : recoveredOf a b = recoveredOf b a)
    {metrics metrics' : List MetricComparison}
    (hmetrics : List.Forall₂ Exchanged metrics metrics') :
    overallLevel (comparisonFindings a b ++ metrics.map metricFinding) metrics =
      overallLevel (comparisonFindings b a ++ metrics'.map metricFinding) metrics' := by
  have hlevels : metrics.map MetricComparison.comparability =
      metrics'.map MetricComparison.comparability :=
    map_eq_of_forall₂ hmetrics fun _ _ h => h.comparability
  have hall : ∀ ms : List MetricComparison, (ms.all (·.comparability = .notComparable)) =
      (ms.map MetricComparison.comparability).all (· = .notComparable) := by
    intro ms
    rw [List.all_map]
    rfl
  have hfindings : ∀ ms : List MetricComparison,
      (ms.map metricFinding).map ComparabilityFinding.level =
        ms.map MetricComparison.comparability := by
    intro ms
    rw [List.map_map]
    rfl
  have hnil : metrics ≠ [] ↔ metrics' ≠ [] := by
    cases hmetrics <;> simp
  have hfound := comparisonFindings_levels h
  unfold levelsOf at hfound
  simp only [overallLevel, List.map_append, hall, hfindings, hlevels, hnil, hfound]

/-! ## The caveat about recovery -/

/-- The text of a caveat about recovery begins like this; no other one about the whole does. -/
def BeginsRecovered (reason : String) : Prop := reason.toList.head? = some 's'

theorem begins_recoveredText (which : String) : BeginsRecovered (recoveredText which) := by
  simp [BeginsRecovered, recoveredText, toString]

theorem mem_ite_single {condition : Prop} [Decidable condition] {f g : ComparabilityFinding}
    (h : f ∈ if condition then [g] else []) : f = g := by
  split at h
  · exact List.mem_singleton.mp h
  · exact absurd h List.not_mem_nil

theorem collectorFinding_not_begins {a b : ComparisonSide} {f : ComparabilityFinding}
    (hmem : f ∈ collectorFinding a b) : ¬BeginsRecovered f.reason := by
  unfold collectorFinding at hmem
  rw [mem_ite_single hmem]
  simp [BeginsRecovered, toString]

theorem coverageFinding_not_begins {a b : ComparisonSide} {f : ComparabilityFinding}
    (hmem : f ∈ coverageFinding a b) : ¬BeginsRecovered f.reason := by
  unfold coverageFinding at hmem
  rw [mem_ite_single hmem]
  simp [BeginsRecovered, toString]

theorem cadenceFinding_not_begins {a b : ComparisonSide} {f : ComparabilityFinding}
    (hmem : f ∈ cadenceFinding a b) : ¬BeginsRecovered f.reason := by
  unfold cadenceFinding at hmem
  split at hmem
  · rw [mem_ite_single hmem]
    simp [BeginsRecovered, toString]
  · exact absurd hmem List.not_mem_nil

theorem sourceFinding_metric {a b : ComparisonSide} {f : ComparabilityFinding}
    (hmem : f ∈ sourceFinding a b) : f.metric ≠ none := by
  unfold sourceFinding at hmem
  split at hmem
  · rw [mem_ite_single hmem]
    simp
  · exact absurd hmem List.not_mem_nil

theorem durationFinding_not_begins {a b : ComparisonSide} {f : ComparabilityFinding}
    (hmem : f ∈ durationFinding a b) : ¬BeginsRecovered f.reason := by
  unfold durationFinding at hmem
  dsimp only at hmem
  have hhead : f.reason.toList.head? = some 'd' := by
    split at hmem
    · rw [List.mem_singleton.mp hmem]
      simp only [toString, String.toList_append]
      rfl
    · exact absurd hmem List.not_mem_nil
  simp [BeginsRecovered, hhead]

theorem other_not_begins {a b : ComparisonSide} {f : ComparabilityFinding}
    (hmem : f ∈ collectorFinding a b ++ coverageFinding a b ++ cadenceFinding a b ++
      sourceFinding a b ++ durationFinding a b) (hnone : f.metric = none) :
    ¬BeginsRecovered f.reason := by
  simp only [List.mem_append, or_assoc] at hmem
  obtain hmem | hmem | hmem | hmem | hmem := hmem
  · exact collectorFinding_not_begins hmem
  · exact coverageFinding_not_begins hmem
  · exact cadenceFinding_not_begins hmem
  · exact absurd hnone (sourceFinding_metric hmem)
  · exact durationFinding_not_begins hmem

theorem hasRecovered_build_iff (a b : ComparisonSide) :
    HasRecovered (build a b) ↔ recoveredOf a b = some true := by
  have hlisted : HasRecovered (build a b) ↔ ∃ f ∈ recoveredFinding a b, f.metric = none ∧
      (f.reason = recoveredText "A" ∨ f.reason = recoveredText "B") := by
    constructor
    · rintro ⟨f, hf, hnone, hreason⟩
      refine ⟨f, ?_, hnone, hreason⟩
      have hbegins : BeginsRecovered f.reason := by
        obtain hreason | hreason := hreason <;> rw [hreason] <;> exact begins_recoveredText _
      have hmem := List.mem_of_mem_filter ((List.mem_insertionSort _).mp hf)
      obtain hmem | hmem := List.mem_append.mp hmem
      · obtain hmem | hmem := List.mem_append.mp hmem
        · exact absurd hbegins (other_not_begins hmem hnone)
        · exact hmem
      · obtain ⟨m, -, rfl⟩ := List.mem_map.mp hmem
        cases hnone
    · rintro ⟨f, hf, hnone, hreason⟩
      refine ⟨f, (List.mem_insertionSort _).mpr (List.mem_filter.mpr ⟨?_, by simp [hnone]⟩), hnone,
        hreason⟩
      exact List.mem_append_left _ (List.mem_append_right _ hf)
  rw [hlisted]
  unfold recoveredFinding recoveredOf
  cases (sessionRecovered a.session).or (sessionRecovered b.session) with
  | none => simp
  | some recovered =>
      cases recovered with
      | false => simp
      | true => cases hsome : (sessionRecovered a.session).isSome <;> simp

/-! ## The whole comparison -/

/-- The footers of two sessions do not contradict each other about recovery. -/
def FootersAgree (a b : SessionData) : Prop :=
  ∀ ra ∈ sessionRecovered a, ∀ rb ∈ sessionRecovered b, ra = rb

theorem footersAgree_iff (a b : ComparisonSide) :
    FootersAgree a.session b.session ↔ (recoveredOf a b = some true ↔ recoveredOf b a = some true) := by
  unfold FootersAgree recoveredOf
  cases sessionRecovered a.session with
  | none => simp
  | some ra => cases sessionRecovered b.session with
    | none => simp
    | some rb => cases ra <;> cases rb <;> simp

theorem recoveredOf_comm {a b : ComparisonSide} (h : FootersAgree a.session b.session) :
    recoveredOf a b = recoveredOf b a := by
  unfold FootersAgree at h
  unfold recoveredOf
  cases ha : sessionRecovered a.session with
  | none => simp
  | some ra => cases hb : sessionRecovered b.session with
    | none => simp
    | some rb => simpa using h ra ha rb hb

theorem exchanged_metrics (a b : ComparisonInput) :
    List.Forall₂ Exchanged (compareRanges a b).headlineMetrics
      (compareRanges b a).headlineMetrics :=
  (forall₂_filterMap_iff fun definition _ => headlineMetric_isSome a.side b.side definition).mpr
    fun _ hdef => exchanged_headlineMetric a b hdef

theorem ranked_exchange (a b : ComparisonInput) :
    ((compareRanges a b).rankedChanges.map fun r => (r.metric, r.relevance)) =
      (compareRanges b a).rankedChanges.map fun r => (r.metric, r.relevance) := by
  have hkeys := rankedChanges_exchange (exchanged_metrics a b)
  have hmap := congrArg (List.map fun key => (key.metric, key.relevance)) hkeys
  rw [List.map_map, List.map_map] at hmap
  exact hmap

/-- A comparison is mirrored when its sides are exchanged if and only if the footers agree and
no headline metric has a difference that is not a number. -/
theorem compareRanges_mirrored_iff (a b : ComparisonInput) :
    Mirrored (compareRanges a b) (compareRanges b a) ↔
      FootersAgree a.session b.session ∧ ∀ definition ∈ headline, NumericDelta a b definition := by
  have hmetrics : List.Forall₂ MirrorMetric (compareRanges a b).headlineMetrics
      (compareRanges b a).headlineMetrics ↔ ∀ definition ∈ headline, NumericDelta a b definition :=
    (forall₂_filterMap_iff fun definition _ =>
      headlineMetric_isSome a.side b.side definition).trans
        (forall₂_congr fun _ hdef => mirrorMetric_headlineMetric_iff a b hdef)
  have hrecovered : (HasRecovered (compareRanges a b) ↔ HasRecovered (compareRanges b a)) ↔
      FootersAgree a.session b.session := by
    rw [compareRanges, compareRanges, hasRecovered_build_iff, hasRecovered_build_iff]
    exact (footersAgree_iff a.side b.side).symm
  constructor
  · intro h
    exact ⟨hrecovered.mp h.recovered, hmetrics.mp h.metrics⟩
  · rintro ⟨hfooters, hnumeric⟩
    refine ⟨?_, hmetrics.mpr hnumeric, ranked_exchange a b, hrecovered.mpr hfooters⟩
    exact overallLevel_exchange (recoveredOf_comm (a := a.side) (b := b.side) hfooters)
      (exchanged_metrics a b)

/-- A session of which the footer says whether it was recovered, and nothing else. -/
def footed (recovered : Bool) : ComparisonInput where
  session := { (default : SessionData) with
    footer := some (.obj [("recovered", .bool recovered)]) }
  intervalMs := 1000
  fromMs := none
  toMs := none

/-- Whether the caveat is there depends on which of the two footers is asked first. -/
theorem recovered_not_mirrored : ¬ ∀ a b : ComparisonInput,
    Mirrored (compareRanges a b) (compareRanges b a) := by
  intro h
  have hrecovered := (h (footed false) (footed true)).recovered
  rw [compareRanges, compareRanges, hasRecovered_build_iff, hasRecovered_build_iff] at hrecovered
  have hforth : recoveredOf (footed false).side (footed true).side = some false := by decide
  have hback : recoveredOf (footed true).side (footed false).side = some true := by decide
  rw [hforth, hback] at hrecovered
  exact absurd (hrecovered.mpr rfl) (by decide)

end PowerForensics.Compare
