import PowerForensics.Core.ExperimentConfounders

/-! # Excluded runs

Every step of the analysis takes the included runs for itself. What is concluded is therefore
what would be concluded if the excluded runs had never been there; they are counted only.
-/

namespace PowerForensics.Experiment

/-- What an analysis concludes, next to the runs that it lists and counts. -/
structure Conclusions where
  effect : EffectEstimate
  noise : NoiseAssessment
  paired : Option PairedReport
  classification : ExperimentResult
  validity : ExperimentValidity
  validityReasons : List String
  summaryLines : List String
  confounders : List Confounder
  secondary : List SecondaryComparison
  caveats : List String
  deriving DecidableEq

def ExperimentAnalysis.conclusions (analysis : ExperimentAnalysis) : Conclusions :=
  { effect := analysis.effect
    noise := analysis.noise
    paired := analysis.paired
    classification := analysis.classification
    validity := analysis.validity
    validityReasons := analysis.validityReasons
    summaryLines := analysis.summaryLines
    confounders := analysis.confounders
    secondary := analysis.secondary
    caveats := analysis.caveats }

/-! ## The included runs alone -/

theorem includedRuns_includedRuns (runs : List RunOutcome) :
    includedRuns (includedRuns runs) = includedRuns runs := by
  simp [includedRuns]

theorem includedRuns_filter (p : RunOutcome → Bool) (runs : List RunOutcome) :
    includedRuns (runs.filter p) = (includedRuns runs).filter p := by
  simp only [includedRuns, List.filter_filter, Bool.and_comm]

/-- A filter for included runs, whatever else it asks, is one of the included runs. -/
theorem filter_included (p : RunOutcome → Bool) (runs : List RunOutcome) :
    (runs.filter fun r => r.included && p r) = (includedRuns runs).filter p := by
  rw [includedRuns, List.filter_filter]
  simp only [Bool.and_comm]

theorem measuredRuns_includedRuns (runs : List RunOutcome) :
    measuredRuns (includedRuns runs) = measuredRuns runs := by
  rw [measuredRuns, measuredRuns, filter_included, filter_included, includedRuns_includedRuns]

theorem groupValues_includedRuns (runs : List RunOutcome) (group : RunGroup) :
    groupValues (includedRuns runs) group = groupValues runs group := by
  simp only [groupValues, includedRuns, List.filter_filter]
  congr 2
  funext r
  simp

theorem pairedReport_includedRuns (runs : List RunOutcome) :
    pairedReport (includedRuns runs) = pairedReport runs := by
  simp only [pairedReport, measuredRuns_includedRuns]

theorem confounders_includedRuns (runs : List RunOutcome) :
    confounders (includedRuns runs) = confounders runs := by
  simp only [confounders, includedRuns_includedRuns]

theorem secondaryComparison_includedRuns (runs : List RunOutcome) (primary : String) :
    secondaryComparison (includedRuns runs) primary = secondaryComparison runs primary := by
  simp only [secondaryComparison, includedRuns_includedRuns]

/-- Only the counts of a group tell that it had other runs. -/
theorem summarize_includedRuns (group : RunGroup) (runs : List RunOutcome) :
    summarize group (includedRuns runs) =
      { summarize group runs with
        runsTotal := (includedRuns (runs.filter fun r => r.group = group)).length
        runsExcluded := 0 } := by
  have hgroup : ((includedRuns runs).filter fun r => r.group = group) =
      includedRuns (runs.filter fun r => r.group = group) := (includedRuns_filter _ runs).symm
  simp only [summarize, hgroup, includedRuns_includedRuns, Nat.sub_self]

/-- The conclusions are those from the included runs. -/
theorem conclusions_includedRuns (outcomes : List RunOutcome) (config : ExperimentConfig) :
    (analyzeOutcomes (includedRuns outcomes) config).conclusions =
      (analyzeOutcomes outcomes config).conclusions := by
  have hinvalid : ((includedRuns outcomes).filter fun o => o.included && !o.validation.valid) =
      outcomes.filter fun o => o.included && !o.validation.valid := by
    rw [filter_included, filter_included, includedRuns_includedRuns]
  have hmissing : ((includedRuns outcomes).filter fun o => o.included && o.primaryValue.isNone) =
      outcomes.filter fun o => o.included && o.primaryValue.isNone := by
    rw [filter_included, filter_included, includedRuns_includedRuns]
  simp only [analyzeOutcomes, ExperimentAnalysis.conclusions, hinvalid, hmissing,
    groupValues_includedRuns, pairedReport_includedRuns, confounders_includedRuns,
    secondaryComparison_includedRuns, summarize_includedRuns]
  rfl

/-- Lists with the same included runs lead to the same conclusions, whatever their excluded
runs have measured and however many there are. -/
theorem excluded_without_influence {outcomes outcomes' : List RunOutcome}
    (hincluded : includedRuns outcomes = includedRuns outcomes') (config : ExperimentConfig) :
    (analyzeOutcomes outcomes config).conclusions =
      (analyzeOutcomes outcomes' config).conclusions := by
  rw [← conclusions_includedRuns outcomes, hincluded, conclusions_includedRuns outcomes']

/-- An excluded run may measure anything else, and may be left out. -/
theorem excluded_without_influence_run :
    let run := { sourceRun "c" .baseline none with included := false }
    let changed := { run with
      primaryValue := some 90.0
      coverage := none
      discontinuities := 7
      cadenceMs := none
      processNames := ["other"]
      context := { run.context with powerSource := some "mains" } }
    let kept := sourceRun "a" .baseline (some "battery")
    (analyzeOutcomes [kept, run] dischargeExperiment).conclusions =
        (analyzeOutcomes [kept, changed] dischargeExperiment).conclusions ∧
      (analyzeOutcomes [kept, run] dischargeExperiment).conclusions =
        (analyzeOutcomes [kept] dischargeExperiment).conclusions :=
  ⟨excluded_without_influence (by simp [includedRuns, sourceRun]) dischargeExperiment,
    excluded_without_influence (by simp [includedRuns, sourceRun]) dischargeExperiment⟩

end PowerForensics.Experiment
