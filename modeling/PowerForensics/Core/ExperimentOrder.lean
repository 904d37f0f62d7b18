import PowerForensics.Binary64.Alike
import PowerForensics.Core.ExperimentInclusion
import PowerForensics.System.Lookup

/-! # The order of the runs

Medians sort their values, pairs are looked up by number and group, and what varies between
the runs is asked of all of them. Where each pair has one run in each group, the verdict is
the same in whatever order the runs are listed; only means, wording and the bootstrap see it.
-/

namespace PowerForensics.Experiment

open Binary64 Stats Compare Distinct Lookup

/-! ## Values -/

/-- Sorting by the total order leaves nothing of the order the values came in. -/
theorem sorted_perm {values values' : List Binary64} (hperm : values.Perm values') :
    values.insertionSort (fun a b => a.totalRank ≤ b.totalRank) =
      values'.insertionSort fun a b => a.totalRank ≤ b.totalRank := by
  have htotal : Std.Total fun a b : Binary64 => a.totalRank ≤ b.totalRank :=
    ⟨fun a b => le_total a.totalRank b.totalRank⟩
  have htrans : IsTrans Binary64 fun a b => a.totalRank ≤ b.totalRank :=
    ⟨fun _ _ _ hab hbc => le_trans hab hbc⟩
  refine List.Perm.eq_of_pairwise (fun a b _ _ hab hba => totalRank_injective (le_antisymm hab hba))
    (List.pairwise_insertionSort _ values) (List.pairwise_insertionSort _ values') ?_
  exact (List.perm_insertionSort _ values).trans
    (hperm.trans (List.perm_insertionSort _ values').symm)

theorem median_perm {values values' : List Binary64} (hperm : values.Perm values') :
    median values = median values' := by
  have hempty : values = [] ↔ values' = [] := by
    rw [← List.length_eq_zero_iff, hperm.length_eq, List.length_eq_zero_iff]
  simp only [median, percentileSorted, hempty, sorted_perm hperm, hperm.length_eq]

theorem reduce_perm {f : Binary64 → Binary64 → Binary64}
    (hf : ∀ {x x' values values'}, (x :: values).Perm (x' :: values') →
      Alike (values.foldl f x) (values'.foldl f x'))
    {values values' : List Binary64} (hperm : values.Perm values') :
    reduce f values = none ∧ reduce f values' = none ∨
      ∃ m m', reduce f values = some m ∧ reduce f values' = some m' ∧ Alike m m' := by
  cases values with
  | nil =>
      obtain rfl := List.nil_perm.mp hperm
      exact Or.inl ⟨rfl, rfl⟩
  | cons x values =>
      cases values' with
      | nil => exact absurd hperm (by simp)
      | cons x' values' => exact Or.inr ⟨_, _, rfl, rfl, hf hperm⟩

/-! ## States of confounders -/

/-- The confounders by their keys, each with its state. -/
def confounderStates (confounders : List Confounder) : List (String × ConfounderState) :=
  confounders.map fun c => (c.key, c.state)

theorem variationState_perm {values values' : List (Option String)} (hperm : values.Perm values') :
    variationState values = variationState values' := by
  have hany : values.any Option.isNone = values'.any Option.isNone := by
    rw [Bool.eq_iff_iff, List.any_eq_true, List.any_eq_true]
    simp only [hperm.mem_iff]
  have hknown : sortedDistinct (values.filterMap id) = sortedDistinct (values'.filterMap id) :=
    sortedDistinct_congr fun _ => (hperm.filterMap id).mem_iff
  simp only [variationState, hany, hknown]

/-- How far apart two numbers are as a factor is the same for numbers that compare alike. -/
theorem factor_alike {lo lo' hi hi' : Binary64} (hlow : Alike lo lo') (hhigh : Alike hi hi')
    (bound : Binary64) :
    ((0.0 : Binary64) < lo ∧ bound < hi / lo) ↔ ((0.0 : Binary64) < lo' ∧ bound < hi' / lo') := by
  constructor
  · rintro ⟨hpos, hfar⟩
    obtain rfl := hlow.eq_of_pos hpos
    exact ⟨hpos, ((hhigh.div_right lo).lt_iff bound).mp hfar⟩
  · rintro ⟨hpos, hfar⟩
    obtain rfl := hlow.symm.eq_of_pos hpos
    exact ⟨hpos, ((hhigh.div_right lo').lt_iff bound).mpr hfar⟩

theorem setsEqual_iff {sets : List (List String)} :
    setsEqual sets = true ↔ ∀ s ∈ sets, ∀ s' ∈ sets, sortedDistinct s = sortedDistinct s' := by
  have hmem : ∀ t, t ∈ (sets.map sortedDistinct).reverse ↔ ∃ s ∈ sets, sortedDistinct s = t := by
    simp
  have hall : (∀ s ∈ sets, ∀ s' ∈ sets, sortedDistinct s = sortedDistinct s') ↔
      ∀ t ∈ (sets.map sortedDistinct).reverse, ∀ t' ∈ (sets.map sortedDistinct).reverse, t = t' := by
    simp only [hmem, forall_exists_index, and_imp, forall_apply_eq_imp_iff₂]
  rw [hall, setsEqual]
  cases (sets.map sortedDistinct).reverse with
  | nil => simp
  | cons last rest =>
      simp only [List.all_eq_true, decide_eq_true_eq]
      constructor
      · intro hrest
        have hlast : ∀ t ∈ last :: rest, t = last := by
          intro t ht
          obtain rfl | ht := List.mem_cons.mp ht
          · rfl
          · exact hrest t ht
        intro t ht t' ht'
        rw [hlast t ht, hlast t' ht']
      · intro hsame t ht
        exact hsame t (List.mem_cons_of_mem _ ht) last List.mem_cons_self

theorem discontinuityConfounder_state (included : List RunOutcome) :
    (discontinuityConfounder included).state =
      if ∃ r ∈ included, 0 < r.discontinuities then .changed else .controlled := by
  have hnone : (included.filter fun r => 0 < r.discontinuities).map RunOutcome.id = [] ↔
      ¬ ∃ r ∈ included, 0 < r.discontinuities := by
    simp
  simp only [discontinuityConfounder]
  split
  · next h => rw [if_neg (hnone.mp h)]
  · next h => rw [if_pos (not_not.mp (mt hnone.mpr h))]

/-- A process that is listed less often than there are runs is missing somewhere. -/
theorem processConfounder_state (included : List RunOutcome) :
    (processConfounder included).state =
      if ∃ name ∈ included.flatMap RunOutcome.processNames,
        (presentIn included name).length < included.length then .changed else .controlled := by
  have hnone : (((sortedDistinct (included.flatMap RunOutcome.processNames)).map fun name =>
      (name, presentIn included name)).filter fun p => p.2.length < included.length).take 8 = [] ↔
      ¬ ∃ name ∈ included.flatMap RunOutcome.processNames,
        (presentIn included name).length < included.length := by
    rw [List.take_eq_nil_iff, or_iff_right (by decide), List.filter_eq_nil_iff,
      List.forall_mem_map]
    simp only [mem_sortedDistinct, decide_eq_true_eq, not_exists, not_and]
  simp only [processConfounder]
  split
  · next h => rw [if_neg (hnone.mp h)]
  · next h => rw [if_pos (not_not.mp (mt hnone.mpr h))]

/-! ## The same runs in another order -/

/-- Each pair has at most one run in each group. -/
def DistinctSides (outcomes : List RunOutcome) : Prop :=
  (outcomes.filterMap fun r => r.pairId.map fun id => (id, r.group)).Nodup

section Perm

variable {outcomes outcomes' : List RunOutcome} (hperm : outcomes.Perm outcomes')

include hperm

theorem includedRuns_perm : (includedRuns outcomes).Perm (includedRuns outcomes') :=
  hperm.filter _

/-- A group is the same but for its mean, its least and its greatest value. -/
theorem summarize_perm (group : RunGroup) :
    ∃ mean least greatest, summarize group outcomes' =
      { summarize group outcomes with mean := mean, min := least, max := greatest } := by
  have hgroup := hperm.filter fun r => r.group = group
  have hincluded := includedRuns_perm hgroup
  have hvalues := hincluded.filterMap RunOutcome.primaryValue
  have hvalid := (hincluded.filter fun r => r.validation.valid).length_eq
  have hinvalid := (hincluded.filter fun r => !r.validation.valid).length_eq
  refine ⟨(summarize group outcomes').mean, (summarize group outcomes').min,
    (summarize group outcomes').max, ?_⟩
  simp only [summarize, hgroup.length_eq, hincluded.length_eq, hvalues.length_eq, hvalid, hinvalid,
    median_perm hvalues, median_perm (hvalues.map _), deviations,
    median_perm (hincluded.filterMap RunOutcome.coverage)]

theorem pairSide_perm (hdistinct : DistinctSides outcomes) (id : Nat) (group : RunGroup) :
    pairSide (measuredRuns outcomes) id group = pairSide (measuredRuns outcomes') id group := by
  refine find?_perm (hperm.filter _) fun a ha b hb hpa hpb => ?_
  have hkey : ∀ r : RunOutcome, decide (r.pairId = some id ∧ r.group = group ∧
      r.primaryValue.isSome) = true → (r.pairId.map fun id => (id, r.group)) =
      some (id, group) := by
    intro r hr
    obtain ⟨hid, rfl, -⟩ := of_decide_eq_true hr
    rw [hid]
    rfl
  exact eq_of_key hdistinct (List.mem_of_mem_filter ha) (List.mem_of_mem_filter hb)
    (hkey a hpa) (hkey b hpb)

/-- The pairs come in the order of their numbers. -/
theorem pairedReport_perm (hdistinct : DistinctSides outcomes) :
    pairedReport outcomes = pairedReport outcomes' := by
  have hmeasured : (measuredRuns outcomes).Perm (measuredRuns outcomes') := hperm.filter _
  have hids : sortedDistinct ((measuredRuns outcomes).filterMap RunOutcome.pairId) =
      sortedDistinct ((measuredRuns outcomes').filterMap RunOutcome.pairId) :=
    sortedDistinct_congr fun _ => (hmeasured.filterMap _).mem_iff
  have hpair : pairOf (measuredRuns outcomes) = pairOf (measuredRuns outcomes') := by
    funext id
    simp only [pairOf, pairSide_perm hperm hdistinct]
  simp only [pairedReport, hids, hpair]

theorem cadenceConfounder_perm :
    (cadenceConfounder outcomes).state = (cadenceConfounder outcomes').state := by
  have hvalues := hperm.filterMap RunOutcome.cadenceMs
  simp only [cadenceConfounder, hperm.length_eq, hvalues.length_eq]
  obtain ⟨hlo, hlo'⟩ | ⟨lo, lo', hlo, hlo', hlow⟩ := reduce_perm alike_foldl_min hvalues
  · simp only [hlo, hlo']
  obtain ⟨hhi, hhi'⟩ | ⟨hi, hi', hhi, hhi', hhigh⟩ := reduce_perm alike_foldl_max hvalues
  · simp only [hlo, hlo', hhi, hhi']
  simp only [hlo, hlo', hhi, hhi', factor_alike hlow hhigh]

theorem durationConfounder_perm :
    (durationConfounder outcomes).state = (durationConfounder outcomes').state := by
  have hvalues := hperm.map RunOutcome.durationS
  simp only [durationConfounder]
  obtain ⟨hlo, hlo'⟩ | ⟨lo, lo', hlo, hlo', hlow⟩ := reduce_perm alike_foldl_min hvalues
  · simp only [hlo, hlo']
  obtain ⟨hhi, hhi'⟩ | ⟨hi, hi', hhi, hhi', hhigh⟩ := reduce_perm alike_foldl_max hvalues
  · simp only [hlo, hlo', hhi, hhi']
  simp only [hlo, hlo', hhi, hhi', factor_alike hlow hhigh]

theorem coverageConfounder_perm :
    (coverageConfounder outcomes).state = (coverageConfounder outcomes').state := by
  have hvalues := hperm.filterMap RunOutcome.coverage
  simp only [coverageConfounder, hperm.length_eq, hvalues.length_eq]
  have hlow : Alike ((reduce min (outcomes.filterMap RunOutcome.coverage)).getD 0.0)
      ((reduce min (outcomes'.filterMap RunOutcome.coverage)).getD 0.0) := by
    obtain ⟨hlo, hlo'⟩ | ⟨lo, lo', hlo, hlo', hlow⟩ := reduce_perm alike_foldl_min hvalues
    · rw [hlo, hlo']
      exact Alike.refl _
    · rw [hlo, hlo']
      exact hlow
  have hhigh : Alike ((reduce max (outcomes.filterMap RunOutcome.coverage)).getD 0.0)
      ((reduce max (outcomes'.filterMap RunOutcome.coverage)).getD 0.0) := by
    obtain ⟨hhi, hhi'⟩ | ⟨hi, hi', hhi, hhi', hhigh⟩ := reduce_perm alike_foldl_max hvalues
    · rw [hhi, hhi']
      exact Alike.refl _
    · rw [hhi, hhi']
      exact hhigh
  simp only [(hhigh.sub hlow).lt_iff]

theorem collectorConfounder_perm :
    (collectorConfounder outcomes).state = (collectorConfounder outcomes').state := by
  have hsets : setsEqual (outcomes.map RunOutcome.collectors) =
      setsEqual (outcomes'.map RunOutcome.collectors) := by
    rw [Bool.eq_iff_iff, setsEqual_iff, setsEqual_iff]
    simp only [(hperm.map RunOutcome.collectors).mem_iff]
  simp only [collectorConfounder, hsets]

theorem presentIn_perm (name : String) :
    (presentIn outcomes name).length = (presentIn outcomes' name).length :=
  (hperm.flatMap_right _).length_eq

theorem processConfounder_perm :
    (processConfounder outcomes).state = (processConfounder outcomes').state := by
  have hlisted : ∀ name, name ∈ outcomes.flatMap RunOutcome.processNames ↔
      name ∈ outcomes'.flatMap RunOutcome.processNames :=
    fun _ => (hperm.flatMap_right _).mem_iff
  simp only [processConfounder_state, hlisted, presentIn_perm hperm, hperm.length_eq]

theorem confounderStates_perm :
    confounderStates (confounders outcomes) = confounderStates (confounders outcomes') := by
  have hincluded := includedRuns_perm hperm
  have hempty : includedRuns outcomes = [] ↔ includedRuns outcomes' = [] := by
    rw [← List.length_eq_zero_iff, hincluded.length_eq, List.length_eq_zero_iff]
  have hvariation : ∀ value : RunOutcome → Option String,
      variationState ((includedRuns outcomes).map value) =
        variationState ((includedRuns outcomes').map value) :=
    fun value => variationState_perm (hincluded.map value)
  have hdisc : (∃ r ∈ includedRuns outcomes, 0 < r.discontinuities) ↔
      ∃ r ∈ includedRuns outcomes', 0 < r.discontinuities := by
    simp only [hincluded.mem_iff]
  have hprocess : confounderStates (if includedRuns outcomes = [] then []
      else [processConfounder (includedRuns outcomes)]) =
      confounderStates (if includedRuns outcomes' = [] then []
      else [processConfounder (includedRuns outcomes')]) := by
    by_cases hnone : includedRuns outcomes = []
    · rw [if_pos hnone, if_pos (hempty.mp hnone)]
    · rw [if_neg hnone, if_neg (mt hempty.mpr hnone)]
      simp only [confounderStates, List.map_cons, List.map_nil, processConfounder_key,
        processConfounder_perm hincluded]
  simp only [confounderStates] at hprocess
  simp only [confounders, confounderStates, List.map_append, hprocess, List.map_cons,
    List.map_nil, pushVariation_key, pushVariation_state, hvariation,
    cadenceConfounder_perm hincluded, durationConfounder_perm hincluded,
    coverageConfounder_perm hincluded, collectorConfounder_perm hincluded,
    discontinuityConfounder_key, discontinuityConfounder_state, hdisc]
  rfl

theorem critical_perm : (confounders outcomes).any Confounder.critical =
    (confounders outcomes').any Confounder.critical := by
  have hsources : variationState (powerSources outcomes) =
    variationState (powerSources outcomes') :=
    variationState_perm ((includedRuns_perm hperm).map _)
  rw [Bool.eq_iff_iff, critical_iff, critical_iff, hsources]

end Perm

/-! ## The verdict -/

/-- An analysis without what the order of the runs is seen in, the means, the extremes, the
bootstrapped interval and the wording of the confounders. -/
structure OrderFree where
  classification : ExperimentResult
  validity : ExperimentValidity
  validityReasons : List String
  baselineMedian : Option Binary64
  treatmentMedian : Option Binary64
  baselineSpread : Option Binary64
  treatmentSpread : Option Binary64
  effect : EffectEstimate
  noise : NoiseAssessment
  paired : Option PairedReport
  confounders : List (String × ConfounderState)

def ExperimentAnalysis.orderFree (analysis : ExperimentAnalysis) : OrderFree :=
  { classification := analysis.classification
    validity := analysis.validity
    validityReasons := analysis.validityReasons
    baselineMedian := analysis.baseline.median
    treatmentMedian := analysis.treatment.median
    baselineSpread := analysis.baseline.spread
    treatmentSpread := analysis.treatment.spread
    effect := { analysis.effect with confidenceInterval := none }
    noise := analysis.noise
    paired := analysis.paired
    confounders := confounderStates analysis.confounders }

section Frame

variable (b t : GroupSummary) (m l g m' l' g' : Option Binary64) (paired : Option PairedReport)

theorem noiseAssessment_frame : noiseAssessment { b with mean := m, min := l, max := g }
    { t with mean := m', min := l', max := g' } paired = noiseAssessment b t paired := rfl

/-- The single values are only in the interval. -/
theorem effectEstimate_frame (noise : NoiseAssessment) (config : ExperimentConfig)
    (bv tv bv' tv' : List Binary64) :
    { effectEstimate { b with mean := m, min := l, max := g }
        { t with mean := m', min := l', max := g' } noise paired config bv' tv' with
      confidenceInterval := none } =
      { effectEstimate b t noise paired config bv tv with confidenceInterval := none } := by
  simp only [effectEstimate]

theorem classify_frame {effect effect' : EffectEstimate}
    (hdelta : effect'.absoluteDelta = effect.absoluteDelta) (noise : NoiseAssessment)
    (critical : Bool) (invalidRuns missingPrimary : Nat) :
    classify { b with mean := m, min := l, max := g } { t with mean := m', min := l', max := g' }
        effect' noise paired critical invalidRuns missingPrimary =
      classify b t effect noise paired critical invalidRuns missingPrimary := by
  simp only [classify, hdelta]

end Frame

/-- The verdict does not depend on the order of the runs. -/
theorem verdict_perm {outcomes outcomes' : List RunOutcome} (hperm : outcomes.Perm outcomes')
    (hdistinct : DistinctSides outcomes) (config : ExperimentConfig) :
    (analyzeOutcomes outcomes config).orderFree = (analyzeOutcomes outcomes' config).orderFree := by
  have hinvalid := (hperm.filter fun o => o.included && !o.validation.valid).length_eq
  have hmissing := (hperm.filter fun o => o.included && o.primaryValue.isNone).length_eq
  obtain ⟨m, l, g, hbaseline⟩ := summarize_perm hperm .baseline
  obtain ⟨m', l', g', htreatment⟩ := summarize_perm hperm .treatment
  simp only [analyzeOutcomes, ExperimentAnalysis.orderFree, hinvalid, hmissing,
    ← pairedReport_perm hperm hdistinct, ← confounderStates_perm hperm, ← critical_perm hperm]
  generalize groupValues outcomes .baseline = bv, groupValues outcomes .treatment = tv,
    groupValues outcomes' .baseline = bv', groupValues outcomes' .treatment = tv',
    summarize .baseline outcomes = b, summarize .treatment outcomes = t at hbaseline htreatment ⊢
  have hdelta : ∀ noise paired,
      (effectEstimate { b with mean := m, min := l, max := g }
        { t with mean := m', min := l', max := g' } noise paired config bv' tv').absoluteDelta =
      (effectEstimate b t noise paired config bv tv).absoluteDelta := by
    intro noise paired
    simp only [effectEstimate]
  rw [hbaseline, htreatment, noiseAssessment_frame b t m l g m' l' g',
    classify_frame b t m l g m' l' g' _ (hdelta _ _),
    effectEstimate_frame b t m l g m' l' g' _ _ _ bv tv]

/-- One pair, listed either way. -/
theorem verdict_perm_pair :
    let b := { sourceRun "b" .baseline (some "battery") with pairId := some 1 }
    let t := { sourceRun "t" .treatment (some "battery") with pairId := some 1 }
    (analyzeOutcomes [b, t] dischargeExperiment).orderFree =
      (analyzeOutcomes [t, b] dischargeExperiment).orderFree := by
  intro b t
  have hdistinct : DistinctSides [b, t] := by simp [DistinctSides, b, t, sourceRun]
  exact verdict_perm (List.Perm.swap t b []) hdistinct dischargeExperiment

end PowerForensics.Experiment

/-! ## Background processes

A process is reported as seen in some runs only if it is listed less often than there are runs.
A run that lists it more than once can stand in for one that does not list it.
-/

namespace PowerForensics.Experiment

open Distinct

/-! ## Names of some runs -/

/-- The processes that are seen in some runs only, in the order of their names. The confounder
lists the first eight. -/
def partialNames (included : List RunOutcome) : List String :=
  (sortedDistinct (included.flatMap RunOutcome.processNames)).filter fun name =>
    (presentIn included name).length < included.length

/-- A process was seen in one run and not in another. -/
def SeenInSome (included : List RunOutcome) (name : String) : Prop :=
  (∃ r ∈ included, name ∈ r.processNames) ∧ ∃ r ∈ included, name ∉ r.processNames

/-- The confounder says that the background varies, and counts a name among those that do. -/
def CountedPartial (outcomes : List RunOutcome) (name : String) : Prop :=
  name ∈ partialNames (includedRuns outcomes) ∧
    ∃ c ∈ confounders outcomes, c.key = "background_processes" ∧ c.state = .changed ∧
      c.runs = ((partialNames (includedRuns outcomes)).take 8).flatMap
        (presentIn (includedRuns outcomes))

/-- A run counts for a name as often as it lists it. -/
theorem length_presentIn (included : List RunOutcome) (name : String) :
    (presentIn included name).length =
      (included.flatMap RunOutcome.processNames).count name := by
  rw [presentIn]
  induction included with
  | nil => rfl
  | cons r included ih =>
      have hcount : (r.processNames.filter (· = name)).length = r.processNames.count name := by
        rw [List.count_eq_length_filter]
        rfl
      rw [List.flatMap_cons, List.length_append, ih, List.length_map, hcount, List.flatMap_cons,
        List.count_append]

theorem mem_partialNames {included : List RunOutcome} {name : String} :
    name ∈ partialNames included ↔ (∃ r ∈ included, name ∈ r.processNames) ∧
      (included.flatMap RunOutcome.processNames).count name < included.length := by
  rw [partialNames, List.mem_filter, mem_sortedDistinct, List.mem_flatMap, decide_eq_true_eq,
    length_presentIn]

theorem runs_processConfounder (included : List RunOutcome) :
    (processConfounder included).runs =
      ((partialNames included).take 8).flatMap (presentIn included) := by
  have hlisted : (((sortedDistinct (included.flatMap RunOutcome.processNames)).map fun name =>
      (name, presentIn included name)).filter fun p => p.2.length < included.length).take 8 =
      ((partialNames included).take 8).map fun name => (name, presentIn included name) := by
    rw [List.filter_map, ← List.map_take]
    rfl
  simp only [processConfounder]
  rw [hlisted]
  split
  next hnone =>
    rw [List.map_eq_nil_iff.mp hnone]
    rfl
  next => exact List.flatMap_map _ _ _

theorem processConfounder_mem {outcomes : List RunOutcome} (h : includedRuns outcomes ≠ []) :
    processConfounder (includedRuns outcomes) ∈ confounders outcomes := by
  refine List.mem_append_right _ ?_
  rw [if_neg h]
  exact List.mem_singleton_self _

theorem countedPartial_of_mem {outcomes : List RunOutcome} {name : String}
    (h : name ∈ partialNames (includedRuns outcomes)) : CountedPartial outcomes name := by
  obtain ⟨⟨r, hr, hname⟩, hcount⟩ := mem_partialNames.mp h
  refine ⟨h, processConfounder (includedRuns outcomes),
    processConfounder_mem (List.ne_nil_of_mem hr), processConfounder_key _, ?_,
    runs_processConfounder _⟩
  rw [processConfounder_state, if_pos]
  refine ⟨name, List.mem_flatMap.mpr ⟨r, hr, hname⟩, ?_⟩
  rwa [length_presentIn]

/-- A process that was not in every run is reported exactly if it is listed less often than there
are runs. -/
theorem countedPartial_iff (outcomes : List RunOutcome) (name : String) :
    (SeenInSome (includedRuns outcomes) name → CountedPartial outcomes name) ↔
      (SeenInSome (includedRuns outcomes) name →
        ((includedRuns outcomes).flatMap RunOutcome.processNames).count name <
          (includedRuns outcomes).length) := by
  constructor
  · intro h hsome
    exact (mem_partialNames.mp (h hsome).1).2
  · intro h hsome
    exact countedPartial_of_mem (mem_partialNames.mpr ⟨hsome.1, h hsome⟩)

/-- A run with the processes that it lists. -/
def backgroundRun (id : String) (group : RunGroup) (processNames : List String) : RunOutcome :=
  { sourceRun id group (some "mains") with processNames }

/-- One run has two processes of a browser, the other none. -/
def browserRuns : List RunOutcome :=
  [backgroundRun "a" .baseline ["browser.exe", "browser.exe"], backgroundRun "b" .treatment []]

theorem browser_missed : SeenInSome (includedRuns browserRuns) "browser.exe" ∧
    ¬ CountedPartial browserRuns "browser.exe" ∧
    (processConfounder (includedRuns browserRuns)).state = .controlled := by
  have hcount : ((includedRuns browserRuns).flatMap RunOutcome.processNames).count "browser.exe" =
      (includedRuns browserRuns).length := by
    decide
  refine ⟨⟨⟨_, List.mem_cons_self, List.mem_cons_self⟩,
    ⟨_, List.mem_cons_of_mem _ List.mem_cons_self, List.not_mem_nil⟩⟩, ?_, ?_⟩
  · intro hpartial
    exact (mem_partialNames.mp hpartial.1).2.ne hcount
  · rw [processConfounder_state, if_neg]
    rintro ⟨name, hname, hfewer⟩
    obtain rfl : name = "browser.exe" := by
      simpa [includedRuns, browserRuns, backgroundRun, sourceRun] using hname
    rw [length_presentIn] at hfewer
    exact hfewer.ne hcount

end PowerForensics.Experiment
