import PowerForensics.Binary64.Signs
import PowerForensics.Core.ExperimentPairs

/-! # Pairs without a difference

Pairs are said to agree by the sign bits of their differences, and a difference of nothing has a
sign bit too. Where all pairs show none, they leave no noise either, and whatever the other runs
of the groups differ by counts as consistent.
-/

namespace PowerForensics.Experiment

open Binary64 Stats Merging

/-! ## Medians -/

theorem at_mem {sorted : List Binary64} {i : Nat} (hi : i < sorted.length) :
    at_ sorted i ∈ sorted := by
  rw [at_, List.getElem?_eq_getElem hi, Option.getD_some]
  exact List.getElem_mem hi

theorem middlePlaces_le (n : Nat) : (middlePlaces n).1 ≤ n - 1 ∧ (middlePlaces n).2 ≤ n - 1 := by
  rw [middlePlaces]
  dsimp only
  exact half_count_le (n - 1)

/-- What middles keep and all values have, their median has. -/
theorem median_of_all {p : Binary64 → Prop} (hmiddle : ∀ {x y}, p x → p y → p (middle x y))
    {values : List Binary64} (hne : values ≠ []) (hall : ∀ v ∈ values, p v) :
    ∃ m, median values = some m ∧ p m := by
  -- a place behind the last value would read a zero, which need not have the property
  have hsorted : ∀ i, i ≤ values.length - 1 → p (at_ (stableSort totalRank values) i) := by
    intro i hi
    have hperm := stableSort_perm totalRank values
    refine hall _ (hperm.mem_iff.mp (at_mem ?_))
    rw [hperm.length_eq]
    have := List.length_pos_of_ne_nil hne
    omega
  obtain ⟨hlo, hhi⟩ := middlePlaces_le values.length
  rw [median_eq hne]
  generalize middlePlaces values.length = places at hlo hhi
  refine ⟨_, rfl, ?_⟩
  split
  · exact hsorted _ hlo
  · exact hmiddle (hsorted _ hlo) (hsorted _ hhi)

/-- Zeros deviate from their median by zero. -/
theorem spread_of_zeros {values : List Binary64} (hne : values ≠ [])
    (hall : ∀ v ∈ values, v.magnitude = 0) :
    ∃ m, median (deviations (median values) values) = some m ∧ m.magnitude = 0 := by
  obtain ⟨center, hcenter, hzero⟩ := median_of_all (p := fun x => x.magnitude = 0)
    middle_of_zeros hne hall
  apply median_of_all (p := fun x => x.magnitude = 0) middle_of_zeros
  · rw [deviations, ne_eq, List.map_eq_nil_iff]
    exact hne
  · rw [hcenter, deviations, List.forall_mem_map]
    intro v hv
    have hneg : (-center).magnitude = 0 := (magnitude_neg center).trans hzero
    have hsub : (v - center).magnitude = 0 := add_of_zeros (hall v hv) hneg
    rw [Option.getD_some, magnitude_abs, hsub]

/-! ## Pairs that agree -/

/-- The differences of the pairs. -/
def deltas (outcomes : List RunOutcome) : List Binary64 :=
  (pairedReport outcomes).pairs.map PairedDifference.delta

/-- Two pairs or more, whose differences have one sign bit. -/
def OneSign (ds : List Binary64) : Prop := 2 ≤ ds.length ∧ ∃ neg, ∀ d ∈ ds, Signed neg d

theorem consistent_iff {outcomes : List RunOutcome} :
    (pairedReport outcomes).consistent = true ↔ OneSign (deltas outcomes) := by
  have hdef : (pairedReport outcomes).consistent = (decide (2 ≤ (deltas outcomes).length) &&
      (median (deltas outcomes)).any fun m =>
        (deltas outcomes).all fun d => d.signum.equals m.signum) := rfl
  rw [hdef, Bool.and_eq_true, decide_eq_true_eq, OneSign]
  refine and_congr_right fun hlen => ?_
  have hne : deltas outcomes ≠ [] := by
    intro hnil
    rw [hnil] at hlen
    exact absurd hlen (by decide)
  simp only [Option.any_eq_true, List.all_eq_true, signum_equals_iff]
  constructor
  · rintro ⟨m, -, hall⟩
    exact ⟨m.negative, fun d hd => ⟨(hall d hd).1, (hall d hd).2.2⟩⟩
  · rintro ⟨neg, hall⟩
    obtain ⟨m, hmedian, hm⟩ := median_of_all (p := Signed neg) Signed.middle hne hall
    exact ⟨m, hmedian, fun d hd => ⟨(hall d hd).number, hm.number,
      (hall d hd).sign.trans hm.sign.symm⟩⟩

/-- All differences are increases, or all are decreases. -/
def AllOneWay (ds : List Binary64) : Prop :=
  (∀ d ∈ ds, (0.0 : Binary64) < d) ∨ ∀ d ∈ ds, d < 0.0

/-- Consistent pairs have all moved one way, if there is no difference of nothing among them. -/
theorem oneWay_of_consistent_iff {outcomes : List RunOutcome} :
    ((pairedReport outcomes).consistent = true → AllOneWay (deltas outcomes)) ↔
      ¬(OneSign (deltas outcomes) ∧ ∃ d ∈ deltas outcomes, d.equals 0.0 = true) := by
  rw [consistent_iff]
  constructor
  · rintro h ⟨hsign, d, hd, hzero⟩
    have hsides := not_side_of_zero (equals_zero_iff.mp hzero)
    rcases h hsign with hup | hdown
    · exact hsides.1 (hup d hd)
    · exact hsides.2 (hdown d hd)
  · intro h hsign
    obtain ⟨neg, hall⟩ := hsign.2
    have hside : ∀ d ∈ deltas outcomes, if neg then d < 0.0 else (0.0 : Binary64) < d := by
      intro d hd
      refine (hall d hd).side fun hzero => ?_
      exact h ⟨hsign, d, hd, equals_zero_iff.mpr hzero⟩
    cases neg with
    | false => exact Or.inl hside
    | true => exact Or.inr hside

/-! ## Consistent differences -/

/-- A difference stands out from the noise. -/
def StandsOut (delta noise : Binary64) (enough : Prop) : Prop :=
  noise.equals 0.0 = true ∨ ¬ delta.abs ≤ noise ∧
    (2.0 : Binary64) ≤ (if (0.0 : Binary64) < noise then delta.abs / noise else .infinity false) ∧
    enough

theorem classifyDelta_consistent_iff {delta : Binary64} {noise : Option Binary64}
    {consistent : Bool} {runs : Nat} :
    (classifyDelta delta noise consistent runs).result = .consistentDifference ↔
      delta.equals 0.0 = false ∧
        ∃ n ∈ noise, StandsOut delta n (consistent = true ∨ 3 ≤ runs) := by
  unfold classifyDelta
  split
  next hzero =>
    rw [hzero]
    constructor
    · intro hresult
      cases hresult
    · rintro ⟨hne, -⟩
      cases hne
  next hzero =>
    rw [and_iff_right (Bool.eq_false_of_not_eq_true hzero)]
    cases noise with
    | none =>
        constructor
        · intro hresult
          cases hresult
        · rintro ⟨_, hn, -⟩
          cases hn
    | some n =>
        simp only [Option.mem_some_iff, exists_eq_left', StandsOut]
        generalize (if (0.0 : Binary64) < n then delta.abs / n else .infinity false) = ratio
        -- no noise at all, within the noise, and beyond it with or without enough runs
        split
        next hn => exact ⟨fun _ => Or.inl hn, fun _ => rfl⟩
        next hn =>
          rw [or_iff_right hn]
          split
          next hwithin =>
            constructor
            · intro hresult
              cases hresult
            · exact fun h => absurd hwithin h.1
          next hbeyond =>
            rw [and_iff_right hbeyond]
            split
            next hratio => exact ⟨fun _ => hratio, fun _ => rfl⟩
            next hratio =>
              constructor
              · intro hresult
                cases hresult
              · exact fun h => absurd h hratio

theorem classify_consistent_iff {b t : GroupSummary} {effect : EffectEstimate}
    {noise : NoiseAssessment} {paired : Option PairedReport} {critical : Bool}
    {invalid missing : Nat} :
    (classify b t effect noise paired critical invalid missing).result = .consistentDifference ↔
      critical = false ∧ 2 ≤ b.runsWithPrimary ∧ 2 ≤ t.runsWithPrimary ∧
        ∃ delta ∈ effect.absoluteDelta, (classifyDelta delta noise.estimate
          (paired.any fun p => p.consistent && decide (2 ≤ p.usablePairs))
          (min b.runsWithPrimary t.runsWithPrimary)).result = .consistentDifference := by
  rw [classify]
  dsimp only
  have huseful : minUsefulRunsPerGroup = 2 := rfl
  cases critical with
  | true =>
      -- a critical confounder decides before any number is looked at
      constructor
      · intro hresult
        cases hresult
      · rintro ⟨hcritical, -⟩
        cases hcritical
  | false =>
      rw [if_neg Bool.false_ne_true, and_iff_right rfl]
      split
      next hnone =>
        constructor
        · intro hresult
          cases hresult
        · intro h
          omega
      split
      next hfew =>
        constructor
        · intro hresult
          cases hresult
        · intro h
          omega
      next hmany =>
        rw [← and_assoc, and_iff_right (by omega)]
        cases effect.absoluteDelta with
        | none =>
            constructor
            · intro hresult
              cases hresult
            · rintro ⟨_, hd, -⟩
              cases hd
        | some delta => simp only [Option.mem_some_iff, exists_eq_left']

/-! ## Differences of the other runs -/

def groupSpread (values : List Binary64) : Option Binary64 :=
  median (deviations (median values) values)

/-- The groups differ, and next to so many pairs without a difference that counts as consistent:
with two of them there is no noise, with one the noise is that of the groups. -/
def SettledByGroups (bs ts : List Binary64) (pairs : Nat) : Prop :=
  2 ≤ bs.length ∧ 2 ≤ ts.length ∧ ∃ delta ∈ difference (median bs) (median ts),
    delta.equals 0.0 = false ∧ (pairs < 2 → ∃ a ∈ groupSpread bs, ∃ b ∈ groupSpread ts,
      StandsOut delta (max a b) (3 ≤ min bs.length ts.length))

theorem summarize_fields (outcomes : List RunOutcome) (group : RunGroup) :
    (summarize group outcomes).runsWithPrimary = (groupValues outcomes group).length ∧
      (summarize group outcomes).spread = groupSpread (groupValues outcomes group) := by
  have hvalues : (includedRuns (outcomes.filter fun r => r.group = group)).filterMap
      RunOutcome.primaryValue = groupValues outcomes group := by
    simp only [groupValues, includedRuns, List.filter_filter, Bool.decide_and, Bool.decide_eq_true,
      Bool.and_comm]
  rw [← hvalues]
  exact ⟨rfl, rfl⟩

theorem length_deltas (outcomes : List RunOutcome) :
    (pairedReport outcomes).usablePairs = (deltas outcomes).length :=
  (List.length_map _).symm

/-- Pairs without a difference have no noise. -/
theorem noise_of_zeros {outcomes : List RunOutcome} (hmany : 2 ≤ (deltas outcomes).length)
    (hzeros : ∀ d ∈ deltas outcomes, d.equals 0.0 = true) (baseline treatment : GroupSummary) :
    ∃ n, (noiseAssessment baseline treatment (some (pairedReport outcomes))).estimate = some n ∧
      n.equals 0.0 = true := by
  have hne : deltas outcomes ≠ [] := List.ne_nil_of_length_pos (by omega)
  obtain ⟨n, hspread, hzero⟩ := spread_of_zeros hne fun d hd => equals_zero_iff.mp (hzeros d hd)
  refine ⟨n, ?_, equals_zero_iff.mpr hzero⟩
  have hreport : (pairedReport outcomes).spread = some n := hspread
  have husable : usable 2 (some (pairedReport outcomes)) = some (pairedReport outcomes) :=
    Option.filter_some_pos (decide_eq_true (length_deltas outcomes ▸ hmany))
  simp only [noiseAssessment, husable, hreport, Option.some_or]

/-- Next to fewer than two pairs the noise is that of the groups. -/
theorem noise_of_few {outcomes : List RunOutcome} (hfew : ¬2 ≤ (deltas outcomes).length)
    {baseline treatment : GroupSummary} {a b : Binary64} (ha : baseline.spread = some a)
    (hb : treatment.spread = some b) :
    (noiseAssessment baseline treatment (some (pairedReport outcomes))).estimate =
      some (max a b) := by
  have husable : usable 2 (some (pairedReport outcomes)) = none :=
    Option.filter_some_neg (decide_eq_false (length_deltas outcomes ▸ hfew))
  simp only [noiseAssessment, husable, ha, hb]

theorem groupSpread_isSome {values : List Binary64} (hne : values ≠ []) :
    ∃ a, groupSpread values = some a := by
  have hdeviations : deviations (median values) values ≠ [] := by
    rw [deviations, ne_eq, List.map_eq_nil_iff]
    exact hne
  rw [groupSpread, median_eq hdeviations]
  exact ⟨_, rfl⟩

/-- Where no pair shows a difference, the groups settle whether there is a consistent one. -/
theorem consistent_of_zeros_iff {outcomes : List RunOutcome} {config : ExperimentConfig}
    (hpaired : config.pairing = .paired) (hzeros : ∀ d ∈ deltas outcomes, d.equals 0.0 = true) :
    (analyzeOutcomes outcomes config).classification = .consistentDifference ↔
      (confounders outcomes).any Confounder.critical = false ∧
        SettledByGroups (groupValues outcomes .baseline) (groupValues outcomes .treatment)
          (deltas outcomes).length := by
  have hreport : (if config.pairing = .paired then some (pairedReport outcomes) else none) =
      some (pairedReport outcomes) := if_pos hpaired
  have hdelta := absoluteDelta_eq outcomes config
  have hclassification : (analyzeOutcomes outcomes config).classification =
      (classify (summarize .baseline outcomes) (summarize .treatment outcomes)
        (analyzeOutcomes outcomes config).effect
        (noiseAssessment (summarize .baseline outcomes) (summarize .treatment outcomes)
          (if config.pairing = .paired then some (pairedReport outcomes) else none))
        (if config.pairing = .paired then some (pairedReport outcomes) else none)
        ((confounders outcomes).any Confounder.critical)
        (outcomes.filter fun o => o.included && !o.validation.valid).length
        (outcomes.filter fun o => o.included && o.primaryValue.isNone).length).result := rfl
  obtain ⟨hbruns, hbspread⟩ := summarize_fields outcomes .baseline
  obtain ⟨htruns, htspread⟩ := summarize_fields outcomes .treatment
  rw [hclassification, classify_consistent_iff, hreport, hdelta, hbruns, htruns, SettledByGroups]
  refine and_congr_right fun _ => and_congr_right fun hbs => and_congr_right fun hts =>
    exists_congr fun delta => and_congr_right fun _ => ?_
  rw [classifyDelta_consistent_iff]
  refine and_congr_right fun _ => ?_
  -- two pairs leave a noise of zero, and one leaves the noise to the groups
  by_cases hmany : 2 ≤ (deltas outcomes).length
  · obtain ⟨n, hnoise, hzero⟩ := noise_of_zeros hmany hzeros (summarize .baseline outcomes)
      (summarize .treatment outcomes)
    rw [hnoise]
    exact ⟨fun _ hfew => absurd hmany hfew.not_ge, fun _ => ⟨n, rfl, Or.inl hzero⟩⟩
  · obtain ⟨a, ha⟩ := groupSpread_isSome (List.ne_nil_of_length_pos (Nat.zero_lt_of_lt hbs))
    obtain ⟨b, hb⟩ := groupSpread_isSome (List.ne_nil_of_length_pos (Nat.zero_lt_of_lt hts))
    have hflag : (some (pairedReport outcomes)).any
        (fun p => p.consistent && decide (2 ≤ p.usablePairs)) = false := by
      rw [Option.any_some, length_deltas, decide_eq_false hmany, Bool.and_false]
    rw [noise_of_few hmany (hbspread.trans ha) (htspread.trans hb), hflag, ha, hb]
    simp only [Option.mem_some_iff, exists_eq_left', Bool.false_eq_true, false_or,
      Nat.not_le.mp hmany, true_imp_iff]

/-! ## What pairs say -/

/-- Pairs are consistent only if all have moved one way, and where none of them has moved there is
no consistent difference. -/
def PairsSound (outcomes : List RunOutcome) (config : ExperimentConfig) : Prop :=
  ((pairedReport outcomes).consistent = true → AllOneWay (deltas outcomes)) ∧
    (config.pairing = .paired → deltas outcomes ≠ [] →
      (∀ d ∈ deltas outcomes, d.equals 0.0 = true) →
        (analyzeOutcomes outcomes config).classification ≠ .consistentDifference)

/-- The pairs are sound exactly if no difference of nothing has the sign bit of all the others,
and the groups do not differ on their own where no pair does. -/
theorem pairsSound_iff (outcomes : List RunOutcome) (config : ExperimentConfig) :
    PairsSound outcomes config ↔
      ¬(OneSign (deltas outcomes) ∧ ∃ d ∈ deltas outcomes, d.equals 0.0 = true) ∧
        (config.pairing = .paired → deltas outcomes ≠ [] →
          (∀ d ∈ deltas outcomes, d.equals 0.0 = true) →
            (∀ v ∈ powerSources outcomes, v.isSome) ∧ KnownDiffer (powerSources outcomes) ∨
              ¬SettledByGroups (groupValues outcomes .baseline) (groupValues outcomes .treatment)
                (deltas outcomes).length) := by
  rw [PairsSound, oneWay_of_consistent_iff]
  refine and_congr_right fun _ => forall_congr' fun hpaired => forall_congr' fun _ =>
    forall_congr' fun hzeros => ?_
  rw [ne_eq, consistent_of_zeros_iff hpaired hzeros, ← variationState_eq_changed, ← critical_iff,
    not_and_or, Bool.not_eq_false]

/-- Two pairs that show no difference, and three treatment runs that are in no pair. -/
def unmovedPairs : List RunOutcome :=
  pairedRuns [(5, 5), (5, 5)] ++ List.replicate 3 (pairedRun "u" .treatment none 9)

theorem unmoved_pairs_agree : deltas unmovedPairs = [0, 0] ∧
    (pairedReport unmovedPairs).consistent = true ∧
    (analyzeOutcomes unmovedPairs pairedExperiment).classification = .consistentDifference ∧
    ¬PairsSound unmovedPairs pairedExperiment := by
  have hdeltas : deltas unmovedPairs = [0, 0] := by decide +kernel
  have hconsistent : (pairedReport unmovedPairs).consistent = true := by decide +kernel
  have hverdict : (analyzeOutcomes unmovedPairs pairedExperiment).classification =
      .consistentDifference := by
    decide +kernel
  refine ⟨hdeltas, hconsistent, hverdict, fun hsound => ?_⟩
  have hzero : (0 : Binary64) ∈ deltas unmovedPairs := by
    rw [hdeltas]
    exact List.mem_cons_self
  have hsides := not_side_of_zero magnitude_ofNat_zero
  rcases hsound.1 hconsistent with hup | hdown
  · exact hsides.1 (hup _ hzero)
  · exact hsides.2 (hdown _ hzero)

end PowerForensics.Experiment
