import PowerForensics.Core.Experiment

/-! # What else changed between the runs

A value that every included run has recorded is reported as changed exactly if two of them
differ. One run without it makes the value unknown, and a power source that is unknown is
not critical, so that the difference of two others is passed over.
-/

namespace PowerForensics.Experiment

open Compare Distinct

/-! ## One value -/

@[simp] theorem pushVariation_key (key label : String) (values : List (Option String))
    (runIds : List String) : (pushVariation key label values runIds).key = key := by
  simp only [pushVariation]
  split
  · rfl
  · split <;> rfl

/-- The state is taken from the values alone. -/
def variationState (values : List (Option String)) : ConfounderState :=
  if values.any Option.isNone then .unknown
  else if (sortedDistinct (values.filterMap id)).length ≤ 1 then .controlled
  else .changed

@[simp] theorem pushVariation_state (key label : String) (values : List (Option String))
    (runIds : List String) : (pushVariation key label values runIds).state = variationState values := by
  simp only [pushVariation, variationState]
  split
  · rfl
  · split <;> rfl

/-- Two values are known and differ. -/
def KnownDiffer (values : List (Option String)) : Prop :=
  ∃ a b : String, some a ∈ values ∧ some b ∈ values ∧ a ≠ b

theorem one_value_iff {values : List (Option String)} :
    (sortedDistinct (values.filterMap id)).length ≤ 1 ↔ ¬ KnownDiffer values := by
  rw [length_sortedDistinct_le_one]
  simp only [List.mem_filterMap, id_eq, exists_eq_right, KnownDiffer]
  constructor
  · rintro hsame ⟨a, b, ha, hb, hne⟩
    exact hne (hsame a ha b hb)
  · intro hnone a ha b hb
    by_contra hne
    exact hnone ⟨a, b, ha, hb, hne⟩

theorem variationState_eq_changed {values : List (Option String)} :
    variationState values = .changed ↔ (∀ v ∈ values, v.isSome) ∧ KnownDiffer values := by
  have hall : values.any Option.isNone = true ↔ ¬ ∀ v ∈ values, v.isSome := by
    simp only [List.any_eq_true, Option.isNone_iff_eq_none, not_forall, Bool.not_eq_true,
      Option.isSome_eq_false_iff, exists_prop]
  unfold variationState
  split
  · next hnone =>
    exact ⟨nofun, fun h => absurd h.1 (hall.mp hnone)⟩
  · next hsome =>
    have hknown : ∀ v ∈ values, v.isSome := not_not.mp (mt hall.mpr hsome)
    split
    · next hone =>
      exact ⟨nofun, fun h => absurd h.2 (one_value_iff.mp hone)⟩
    · next hmany =>
      exact ⟨fun _ => ⟨hknown, not_not.mp (mt one_value_iff.mpr hmany)⟩, fun _ => rfl⟩

/-! ## The power source -/

/-- What the included runs have recorded of their power sources. -/
def powerSources (outcomes : List RunOutcome) : List (Option String) :=
  (includedRuns outcomes).map fun r => r.context.powerSource

/-- Two included runs have known power sources that differ. -/
def SourcesDiffer (outcomes : List RunOutcome) : Prop :=
  ∃ r ∈ outcomes, ∃ r' ∈ outcomes, r.included ∧ r'.included ∧ ∃ a b : String,
    r.context.powerSource = some a ∧ r'.context.powerSource = some b ∧ a ≠ b

theorem sourcesDiffer_iff {outcomes : List RunOutcome} :
    SourcesDiffer outcomes ↔ KnownDiffer (powerSources outcomes) := by
  simp only [SourcesDiffer, KnownDiffer, powerSources, includedRuns, List.mem_map, List.mem_filter]
  constructor
  · rintro ⟨r, hr, r', hr', hi, hi', a, b, ha, hb, hne⟩
    exact ⟨a, b, ⟨r, ⟨hr, hi⟩, ha⟩, ⟨r', ⟨hr', hi'⟩, hb⟩, hne⟩
  · rintro ⟨a, b, ⟨r, ⟨hr, hi⟩, ha⟩, ⟨r', ⟨hr', hi'⟩, hb⟩, hne⟩
    exact ⟨r, hr, r', hr', hi, hi', a, b, ha, hb, hne⟩

theorem discontinuityConfounder_key (included : List RunOutcome) :
    (discontinuityConfounder included).key = "discontinuities" := by
  simp only [discontinuityConfounder]
  split <;> rfl

theorem processConfounder_key (included : List RunOutcome) :
    (processConfounder included).key = "background_processes" := by
  simp only [processConfounder]
  split <;> rfl

/-- The power source has an entry of its own, and no other entry is critical. -/
theorem confounders_power_source {outcomes : List RunOutcome} {c : Confounder} :
    c ∈ confounders outcomes ∧ c.key ∈ ["power_source", "battery_state"] ↔
      c = pushVariation "power_source" "Power source" (powerSources outcomes)
        ((includedRuns outcomes).map RunOutcome.id) := by
  constructor
  · rintro ⟨hc, hkey⟩
    simp only [confounders, List.mem_append, List.mem_cons, List.not_mem_nil, or_false] at hc
    obtain (rfl | rfl | rfl | rfl | rfl | rfl | rfl | rfl) | hc := hc
    · rfl
    · simp at hkey
    · simp at hkey
    · simp [cadenceConfounder] at hkey
    · simp [durationConfounder] at hkey
    · simp [coverageConfounder] at hkey
    · simp [collectorConfounder] at hkey
    · simp [discontinuityConfounder_key] at hkey
    · split at hc
      · simp at hc
      · obtain rfl := List.mem_singleton.mp hc
        simp [processConfounder_key] at hkey
  · rintro rfl
    exact ⟨by simp [confounders, powerSources], by simp⟩

theorem critical_iff {outcomes : List RunOutcome} :
    (confounders outcomes).any Confounder.critical = true ↔
      variationState (powerSources outcomes) = .changed := by
  simp only [List.any_eq_true, Confounder.critical, decide_eq_true_eq]
  constructor
  · rintro ⟨c, hc, hstate, hkey⟩
    obtain rfl := confounders_power_source.mp ⟨hc, hkey⟩
    simpa using hstate
  · intro hchanged
    obtain ⟨hmem, hkey⟩ := (@confounders_power_source outcomes _).mpr rfl
    exact ⟨_, hmem, by simpa using hchanged, hkey⟩

theorem classify_critical (baseline treatment : GroupSummary) (effect : EffectEstimate)
    (noise : NoiseAssessment) (paired : Option PairedReport) (invalidRuns missingPrimary : Nat) :
    classify baseline treatment effect noise paired true invalidRuns missingPrimary =
      ⟨.confounded, .confounded,
        ["a critical confounder changed between groups (power source / battery state)"]⟩ := by
  rfl

/-- The power source is reported as a condition that varied, and nothing is concluded. -/
def SourceCaught (analysis : ExperimentAnalysis) : Prop :=
  (∃ c ∈ analysis.confounders, c.key = "power_source" ∧ c.state = .changed) ∧
    analysis.classification = .confounded ∧ analysis.validity = .confounded

theorem sourceCaught_iff {outcomes : List RunOutcome} {config : ExperimentConfig} :
    SourceCaught (analyzeOutcomes outcomes config) ↔
      (∀ v ∈ powerSources outcomes, v.isSome) ∧ KnownDiffer (powerSources outcomes) := by
  rw [← variationState_eq_changed]
  constructor
  · rintro ⟨⟨c, hc, hkey, hstate⟩, -⟩
    obtain rfl := confounders_power_source.mp ⟨hc, by simp [hkey]⟩
    simpa using hstate
  · intro hchanged
    have hcritical := critical_iff.mpr hchanged
    obtain ⟨hmem, -⟩ := (@confounders_power_source outcomes _).mpr rfl
    refine ⟨⟨_, hmem, by simp, by simpa using hchanged⟩, ?_, ?_⟩ <;>
      simp only [analyzeOutcomes, hcritical, classify_critical]

/-- A changed power source is caught exactly if no included run leaves it unknown. -/
theorem source_caught_iff_known (outcomes : List RunOutcome) (config : ExperimentConfig) :
    (SourcesDiffer outcomes → SourceCaught (analyzeOutcomes outcomes config)) ↔
      (SourcesDiffer outcomes →
        ∀ r ∈ outcomes, r.included → r.context.powerSource.isSome) := by
  rw [sourceCaught_iff, sourcesDiffer_iff]
  have hknown : (∀ v ∈ powerSources outcomes, v.isSome) ↔
      ∀ r ∈ outcomes, r.included → r.context.powerSource.isSome := by
    simp only [powerSources, includedRuns, List.forall_mem_map, List.mem_filter, and_imp]
  rw [hknown]
  exact ⟨fun h hdiffer => (h hdiffer).1, fun h hdiffer => ⟨h hdiffer, hdiffer⟩⟩

/-- A run of one minute on a power source. -/
def sourceRun (id : String) (group : RunGroup) (powerSource : Option String) : RunOutcome :=
  { id, group, pairId := none, included := true, durationS := 60.0, primaryValue := some 5.0
    coverage := some 1.0, discontinuities := 0, cadenceMs := some 1000.0
    context := { (default : RangeContext) with powerSource }
    collectors := [], processNames := [], secondary := []
    validation := ⟨.accepted, true, []⟩ }

/-- On battery, on mains, and a run that does not know. -/
def sourceRuns : List RunOutcome :=
  [sourceRun "a" .baseline (some "battery"), sourceRun "b" .treatment (some "mains"),
    sourceRun "c" .baseline none]

def dischargeExperiment : ExperimentConfig :=
  ⟨"battery_discharge_w", "discharge", "W", .lower, .unpaired⟩

/-- A third run hides that two others had different power sources. -/
theorem source_change_missed : ¬ ∀ (outcomes : List RunOutcome) (config : ExperimentConfig),
    SourcesDiffer outcomes → SourceCaught (analyzeOutcomes outcomes config) := by
  intro h
  have hdiffer : SourcesDiffer sourceRuns :=
    ⟨sourceRun "a" .baseline (some "battery"), by simp [sourceRuns],
      sourceRun "b" .treatment (some "mains"), by simp [sourceRuns], rfl, rfl, "battery", "mains",
      rfl, rfl, by decide⟩
  have hcaught := (sourceCaught_iff.mp (h sourceRuns dischargeExperiment hdiffer)).1
  exact absurd (hcaught none (by simp [powerSources, includedRuns, sourceRuns, sourceRun])) nofun

end PowerForensics.Experiment
