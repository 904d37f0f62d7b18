import PowerForensics.Binary64.Halves
import PowerForensics.Core.ExperimentOrder
import PowerForensics.System.Merging

/-! # The direction of pairs

The effect of an experiment is the difference of the two group medians, whose direction is
reported next to the median of the paired differences. Runs outside of the pairs move the first
and not the second. Where every measured run is a side of a pair and the pairs agree, the medians
of the groups are ordered as the sides of the pairs are, and both have one sign.
-/

namespace PowerForensics.Experiment

open Binary64 Stats Compare Distinct Lookup Merging

/-! ## Medians of ordered values -/

/-- The places in the middle of so many sorted values. -/
def middlePlaces (n : Nat) : Nat × Nat :=
  let rank := 0.5 * ofNat (n - 1)
  (rank.floor.toUnsigned 64, rank.ceil.toUnsigned 64)

/-- A median is the value in the middle, or the middle of the two there. -/
theorem median_eq {values : List Binary64} (hne : values ≠ []) :
    median values =
      let sorted := stableSort totalRank values
      let places := middlePlaces values.length
      some (if places.1 = places.2 then at_ sorted places.1
        else middle (at_ sorted places.1) (at_ sorted places.2)) := by
  obtain ⟨-, -, -, -, hhalf, hrest, -⟩ := half_fields
  have hvalid : ¬(values = [] ∨ ¬((0.0 : Binary64) ≤ 50.0 ∧ (50.0 : Binary64) ≤ 100.0)) := by
    rw [not_or, not_not]
    exact ⟨hne, by decide +kernel⟩
  rw [median, percentileSorted, if_neg hvalid, hhalf]
  dsimp only [middlePlaces]
  split
  · rfl
  next hplaces =>
    have hfrac := (half_count (values.length - 1)).resolve_left hplaces
    rw [hfrac, hrest]
    rfl

theorem le_of_totalRank {x y : Binary64} (hx : x.isNaN = false) (hy : y.isNaN = false)
    (hle : x.totalRank ≤ y.totalRank) : x ≤ y := by
  refine ⟨hx, hy, ?_⟩
  unfold totalRank at hle
  unfold rank
  split_ifs at hle ⊢ <;> omega

/-- What is at a place of a list of ordered numbers, or zero. -/
theorem at_of_forall₂ {r : Binary64 → Binary64 → Prop} (hzero : r 0.0 0.0) {xs ys : List Binary64}
    (hle : List.Forall₂ r xs ys) (i : Nat) : r (at_ xs i) (at_ ys i) := by
  induction hle generalizing i with
  | nil => exact hzero
  | cons hxy _ ih =>
      cases i with
      | zero => exact hxy
      | succ i => exact ih i

/-- One number is at most another, below infinity and the other above negative infinity. -/
structure Ordered (x y : Binary64) : Prop where
  le : x.totalRank ≤ y.totalRank
  low : Low x
  high : High y

theorem Ordered.number_le {x y : Binary64} (h : Ordered x y) : x ≤ y :=
  le_of_totalRank h.low.1 (high_iff.mp h.high).1 h.le

theorem ordered_zero : Ordered 0.0 0.0 := by
  have hfin : (0.0 : Binary64).isFinite = true := by decide +kernel
  exact ⟨le_rfl, low_of_finite hfin, high_of_finite hfin⟩

theorem forall₂_ordered_iff {xs ys : List Binary64} : List.Forall₂ Ordered xs ys ↔
    (∀ x ∈ xs, Low x) ∧ (∀ y ∈ ys, High y) ∧
      List.Forall₂ (fun x y => x.totalRank ≤ y.totalRank) xs ys := by
  constructor
  · intro h
    induction h with
    | nil => simp
    | cons hxy _ ih =>
        obtain ⟨hlow, hhigh, hle⟩ := ih
        exact ⟨List.forall_mem_cons.mpr ⟨hxy.low, hlow⟩, List.forall_mem_cons.mpr ⟨hxy.high, hhigh⟩,
          .cons hxy.le hle⟩
  · rintro ⟨hlow, hhigh, hle⟩
    induction hle with
    | nil => exact .nil
    | cons hxy _ ih =>
        obtain ⟨hx, hlow⟩ := List.forall_mem_cons.mp hlow
        obtain ⟨hy, hhigh⟩ := List.forall_mem_cons.mp hhigh
        exact .cons ⟨hxy, hx, hy⟩ (ih hlow hhigh)

/-- Values that are ordered pair by pair are so when both sides are sorted. -/
theorem forall₂_sorted {xs ys : List Binary64} (hle : List.Forall₂ Ordered xs ys) :
    List.Forall₂ Ordered (stableSort totalRank xs) (stableSort totalRank ys) := by
  obtain ⟨hlow, hhigh, hrank⟩ := forall₂_ordered_iff.mp hle
  refine forall₂_ordered_iff.mpr ⟨?_, ?_, forall₂_stableSort totalRank hrank⟩
  · intro x hx
    exact hlow x ((stableSort_perm totalRank xs).mem_iff.mp hx)
  · intro y hy
    exact hhigh y ((stableSort_perm totalRank ys).mem_iff.mp hy)

/-- The medians of values that are ordered pair by pair are ordered. -/
theorem median_mono {xs ys : List Binary64} (hle : List.Forall₂ Ordered xs ys) (hne : xs ≠ []) :
    ∃ m n, median xs = some m ∧ median ys = some n ∧ m ≤ n ∧ Low m ∧ High n := by
  have hlen := hle.length_eq
  have hne' : ys ≠ [] := by
    intro hnil
    rw [hnil, List.length_nil] at hlen
    exact hne (List.length_eq_zero_iff.mp hlen)
  have hsorted := forall₂_sorted hle
  have hat := at_of_forall₂ ordered_zero hsorted
  rw [median_eq hne, median_eq hne', hlen]
  refine ⟨_, _, rfl, rfl, ?_⟩
  generalize middlePlaces ys.length = places
  split
  · exact ⟨(hat _).number_le, (hat _).low, (hat _).high⟩
  · refine ⟨?_, low_middle (hat _).low (hat _).low, high_middle (hat _).high (hat _).high⟩
    exact middle_mono (hat _).low (hat _).low (hat _).high (hat _).high (hat _).number_le
      (hat _).number_le

/-! ## The sides of pairs -/

/-- Every run that a pair can be made of is a side of one, and no two of them the same side. -/
structure FullyPaired (outcomes : List RunOutcome) : Prop where
  numbered : ∀ r ∈ measuredRuns outcomes, r.pairId.isSome
  distinct : DistinctSides (measuredRuns outcomes)
  complete : ∀ r ∈ measuredRuns outcomes, ∀ group, ∃ r' ∈ measuredRuns outcomes,
    r'.pairId = r.pairId ∧ r'.group = group

def pairIds (outcomes : List RunOutcome) : List Nat :=
  sortedDistinct ((measuredRuns outcomes).filterMap RunOutcome.pairId)

section Sides

variable {outcomes : List RunOutcome}

theorem mem_measuredRuns {r : RunOutcome} :
    r ∈ measuredRuns outcomes ↔ r ∈ outcomes ∧ r.included = true ∧ r.primaryValue.isSome := by
  rw [measuredRuns, List.mem_filter, Bool.and_eq_true]

theorem mem_pairIds {id : Nat} :
    id ∈ pairIds outcomes ↔ ∃ r ∈ measuredRuns outcomes, r.pairId = some id := by
  rw [pairIds, mem_sortedDistinct, List.mem_filterMap]

theorem of_pairSide {included : List RunOutcome} {id : Nat} {group : RunGroup} {r : RunOutcome}
    (hside : pairSide included id group = some r) :
    r ∈ included ∧ r.pairId = some id ∧ r.group = group ∧ r.primaryValue.isSome := by
  rw [pairSide] at hside
  have hfound := List.find?_some hside
  exact ⟨List.mem_of_find?_eq_some hside, of_decide_eq_true hfound⟩

variable (hpaired : FullyPaired outcomes)

include hpaired

/-- The side of a number is the one run that has it. -/
theorem pairSide_eq_some {id : Nat} {group : RunGroup} {r : RunOutcome} :
    pairSide (measuredRuns outcomes) id group = some r ↔
      r ∈ measuredRuns outcomes ∧ r.pairId = some id ∧ r.group = group := by
  constructor
  · intro hside
    obtain ⟨hmem, hid, hgroup, -⟩ := of_pairSide hside
    exact ⟨hmem, hid, hgroup⟩
  · rintro ⟨hmem, hid, hgroup⟩
    have hvalue := (mem_measuredRuns.mp hmem).2.2
    have hsome : (pairSide (measuredRuns outcomes) id group).isSome := by
      rw [pairSide, List.find?_isSome]
      exact ⟨r, hmem, decide_eq_true ⟨hid, hgroup, hvalue⟩⟩
    obtain ⟨r', hside⟩ := Option.isSome_iff_exists.mp hsome
    obtain ⟨hmem', hid', hgroup', -⟩ := of_pairSide hside
    rw [hside]
    refine congrArg some (eq_of_key hpaired.distinct hmem' hmem (k := (id, group)) ?_ ?_)
    · rw [hid', hgroup']
      rfl
    · rw [hid, hgroup]
      rfl

theorem exists_pairSide {id : Nat} (hid : id ∈ pairIds outcomes) (group : RunGroup) :
    ∃ r v, pairSide (measuredRuns outcomes) id group = some r ∧ r.primaryValue = some v := by
  obtain ⟨r, hr, hrid⟩ := mem_pairIds.mp hid
  obtain ⟨r', hr', hid', hgroup⟩ := hpaired.complete r hr group
  obtain ⟨v, hv⟩ := Option.isSome_iff_exists.mp (mem_measuredRuns.mp hr').2.2
  exact ⟨r', v, (pairSide_eq_some hpaired).mpr ⟨hr', hid'.trans hrid, hgroup⟩, hv⟩

theorem nodup_measuredRuns : (measuredRuns outcomes).Nodup := by
  have hdistinct := hpaired.distinct
  rw [DistinctSides, List.Nodup, List.pairwise_filterMap] at hdistinct
  refine hdistinct.imp_of_mem fun {r r'} hr _ hne heq => ?_
  obtain ⟨id, hid⟩ := Option.isSome_iff_exists.mp (hpaired.numbered r hr)
  subst heq
  exact hne (id, r.group) (by rw [hid]; rfl) (id, r.group) (by rw [hid]; rfl) rfl

/-- The sides of a group are its measured runs. -/
theorem sides_perm (group : RunGroup) :
    ((pairIds outcomes).filterMap fun id => pairSide (measuredRuns outcomes) id group).Perm
      ((measuredRuns outcomes).filter fun r => r.group = group) := by
  apply (List.perm_ext_iff_of_nodup ?_ ((nodup_measuredRuns hpaired).filter _)).mpr
  · intro r
    rw [List.mem_filterMap, List.mem_filter, decide_eq_true_eq]
    constructor
    · rintro ⟨id, -, hside⟩
      obtain ⟨hmem, -, hgroup⟩ := (pairSide_eq_some hpaired).mp hside
      exact ⟨hmem, hgroup⟩
    · rintro ⟨hmem, hgroup⟩
      obtain ⟨id, hid⟩ := Option.isSome_iff_exists.mp (hpaired.numbered r hmem)
      exact ⟨id, mem_pairIds.mpr ⟨r, hmem, hid⟩,
        (pairSide_eq_some hpaired).mpr ⟨hmem, hid, hgroup⟩⟩
  · have hids : (pairIds outcomes).Nodup := nodup_sortedDistinct _
    rw [List.Nodup, List.pairwise_filterMap]
    refine hids.imp fun {id id'} hne r hside r' hside' heq => hne ?_
    have hid := (of_pairSide hside).2.1
    have hid' := (of_pairSide hside').2.1
    rw [heq, hid'] at hid
    exact (Option.some.inj hid).symm

theorem values_perm (group : RunGroup) :
    ((pairIds outcomes).filterMap fun id =>
      (pairSide (measuredRuns outcomes) id group).bind RunOutcome.primaryValue).Perm
        (groupValues outcomes group) := by
  have hvalues : groupValues outcomes group =
      ((measuredRuns outcomes).filter fun r => r.group = group).filterMap
        RunOutcome.primaryValue := by
    rw [groupValues, measuredRuns, List.filter_filter, List.filterMap_filter,
      List.filterMap_filter]
    apply List.filterMap_congr
    intro r _
    cases hv : r.primaryValue with
    | none => simp
    | some v => simp [and_comm]
  rw [hvalues]
  have hperm := (sides_perm hpaired group).filterMap RunOutcome.primaryValue
  rw [List.filterMap_filterMap] at hperm
  exact hperm

/-- The pairs hold the values of both groups. -/
theorem pairs_perm :
    ((pairedReport outcomes).pairs.map PairedDifference.baseline).Perm
        (groupValues outcomes .baseline) ∧
      ((pairedReport outcomes).pairs.map PairedDifference.treatment).Perm
        (groupValues outcomes .treatment) := by
  have hpair : ∀ id ∈ pairIds outcomes, ∃ b t bv tv,
      pairSide (measuredRuns outcomes) id .baseline = some b ∧
      pairSide (measuredRuns outcomes) id .treatment = some t ∧
      b.primaryValue = some bv ∧ t.primaryValue = some tv := by
    intro id hid
    obtain ⟨b, bv, hb, hbv⟩ := exists_pairSide hpaired hid .baseline
    obtain ⟨t, tv, ht, htv⟩ := exists_pairSide hpaired hid .treatment
    exact ⟨b, t, bv, tv, hb, ht, hbv, htv⟩
  have hbaseline := values_perm hpaired .baseline
  have htreatment := values_perm hpaired .treatment
  have hpairs : (pairedReport outcomes).pairs =
      (pairIds outcomes).filterMap (pairOf (measuredRuns outcomes)) := rfl
  rw [hpairs, List.map_filterMap, List.map_filterMap]
  constructor
  · refine (List.Perm.of_eq (List.filterMap_congr fun id hid => ?_)).trans hbaseline
    obtain ⟨b, t, bv, tv, hb, ht, hbv, htv⟩ := hpair id hid
    simp [pairOf, hb, ht, hbv, htv]
  · refine (List.Perm.of_eq (List.filterMap_congr fun id hid => ?_)).trans htreatment
    obtain ⟨b, t, bv, tv, hb, ht, hbv, htv⟩ := hpair id hid
    simp [pairOf, hb, ht, hbv, htv]

end Sides

/-! ## Pairs that agree -/

theorem delta_of_mem {outcomes : List RunOutcome} {p : PairedDifference}
    (hp : p ∈ (pairedReport outcomes).pairs) : p.delta = p.treatment - p.baseline := by
  obtain ⟨id, -, hpair⟩ := List.mem_filterMap.mp hp
  simp only [pairOf, Option.bind_eq_bind, Option.bind_eq_some_iff] at hpair
  obtain ⟨b, -, t, -, bv, -, tv, -, hpair⟩ := hpair
  obtain rfl := Option.some.inj hpair
  rfl

theorem signum_equals_iff {x y : Binary64} : x.signum.equals y.signum = true ↔
    x.isNaN = false ∧ y.isNaN = false ∧ x.negative = y.negative := by
  have hones : (1.0 : Binary64).equals 1.0 = true ∧ (1.0 : Binary64).equals (-1.0) = false ∧
      (-1.0 : Binary64).equals 1.0 = false ∧ (-1.0 : Binary64).equals (-1.0) = true := by
    decide +kernel
  unfold signum
  cases hx : x.isNaN with
  | true => simp [equals, hx]
  | false =>
    cases hy : y.isNaN with
    | true => simp [equals, hy]
    | false => cases x.negative <;> cases y.negative <;> simp [hones]

/-- The direction that a difference has. -/
def signOf (d : Binary64) : EffectDirection :=
  if d < 0.0 then .lower else if (0.0 : Binary64) < d then .higher else .unchanged

theorem signOf_of_pos {d : Binary64} (hnan : d.isNaN = false) (hrank : 0 < d.rank) :
    signOf d = .higher := by
  obtain ⟨hzero, hnumber, -⟩ := literal_fields
  have hneg : ¬d < (0.0 : Binary64) := by
    rintro ⟨-, -, hlt⟩
    omega
  have hpos : (0.0 : Binary64) < d := by
    refine ⟨hnumber, hnan, ?_⟩
    rw [hzero]
    exact hrank
  rw [signOf, if_neg hneg, if_pos hpos]

theorem signOf_of_neg {d : Binary64} (hnan : d.isNaN = false) (hrank : d.rank < 0) :
    signOf d = .lower := by
  obtain ⟨hzero, hnumber, -⟩ := literal_fields
  have hneg : d < (0.0 : Binary64) := by
    refine ⟨hnan, hnumber, ?_⟩
    rw [hzero]
    exact hrank
  rw [signOf, if_pos hneg]

/-- The wording of a treatment does not change its direction. -/
theorem effectDirection_eq (delta : Option Binary64) (direction : TreatmentDirection) :
    effectDirection delta direction = (delta.map signOf).getD .unchanged := by
  cases delta with
  | none => rfl
  | some d =>
      have hswap : (if (0.0 : Binary64) < d then EffectDirection.higher
          else if d < 0.0 then .lower else .unchanged) = signOf d := by
        rw [signOf]
        split
        next hpos =>
          have hneg : ¬d < (0.0 : Binary64) := fun hneg => by
            have := hpos.2.2.trans hneg.2.2
            omega
          rw [if_neg hneg]
        · rfl
      cases direction with
      | lower => rfl
      | higher => exact hswap
      | neutral => exact hswap

theorem rank_ne_zero {d : Binary64} (hnan : d.isNaN = false) (hne : d.equals 0.0 = false) :
    d.rank ≠ 0 := by
  obtain ⟨hzero, hnumber, -⟩ := literal_fields
  intro hrank
  simp [equals, hnan, hnumber, hzero, hrank] at hne

/-- A consistent difference is one that is not zero. -/
theorem delta_of_consistent {outcomes : List RunOutcome} {config : ExperimentConfig}
    (hresult : (analyzeOutcomes outcomes config).classification = .consistentDifference) :
    ∃ delta, (analyzeOutcomes outcomes config).effect.absoluteDelta = some delta ∧
      delta.equals 0.0 = false := by
  have hclassify : ∀ {b t : GroupSummary} {effect noise paired critical invalid missing},
      (classify b t effect noise paired critical invalid missing).result =
        .consistentDifference →
      ∃ delta, effect.absoluteDelta = some delta ∧ delta.equals 0.0 = false := by
    intro b t effect noise paired critical invalid missing hresult
    rw [classify] at hresult
    dsimp only at hresult
    split at hresult
    · cases hresult
    split at hresult
    · cases hresult
    split at hresult
    · cases hresult
    split at hresult
    · cases hresult
    next delta hdelta =>
      refine ⟨delta, hdelta, ?_⟩
      cases hzero : delta.equals 0.0 with
      | false => rfl
      | true =>
          unfold classifyDelta at hresult
          rw [if_pos hzero] at hresult
          cases hresult
  exact hclassify hresult

/-- The difference of two medians, where the values of the groups are ordered pair by pair. -/
theorem difference_of_ordered {xs ys bs ts : List Binary64} (hbs : xs.Perm bs) (hts : ys.Perm ts)
    (hne : xs ≠ []) :
    (List.Forall₂ Ordered xs ys → ∃ d, difference (median bs) (median ts) = some d ∧
      d.isNaN = false ∧ 0 ≤ d.rank) ∧
    (List.Forall₂ Ordered ys xs → ∃ d, difference (median bs) (median ts) = some d ∧
      d.isNaN = false ∧ d.rank ≤ 0) := by
  rw [← median_perm hbs, ← median_perm hts]
  constructor
  · intro hle
    obtain ⟨m, n, hm, hn, hmn, hlow, hhigh⟩ := median_mono hle hne
    rw [hm, hn]
    exact ⟨n - m, rfl, rank_sub_nonneg hmn hlow hhigh⟩
  · intro hle
    have hne' : ys ≠ [] := by
      rintro rfl
      cases hle
      exact hne rfl
    obtain ⟨m, n, hm, hn, hmn, hlow, hhigh⟩ := median_mono hle hne'
    rw [hm, hn]
    exact ⟨m - n, rfl, rank_sub_nonpos hmn hlow hhigh⟩

/-- Where all pairs have moved in the direction of their median, the sides are ordered. -/
theorem ordered_of_consistent {outcomes : List RunOutcome} {m : Binary64}
    (hmedian : (pairedReport outcomes).medianDelta = some m)
    (hconsistent : (pairedReport outcomes).consistent = true) :
    m.isNaN = false ∧ (pairedReport outcomes).pairs ≠ [] ∧
      ∀ p ∈ (pairedReport outcomes).pairs,
        if m.negative then Ordered p.treatment p.baseline else Ordered p.baseline p.treatment := by
  have hdef : (pairedReport outcomes).consistent =
      (decide (2 ≤ ((pairedReport outcomes).pairs.map PairedDifference.delta).length) &&
        (pairedReport outcomes).medianDelta.any fun m =>
          ((pairedReport outcomes).pairs.map PairedDifference.delta).all fun d =>
            d.signum.equals m.signum) := rfl
  rw [hdef, hmedian, Bool.and_eq_true, decide_eq_true_eq, List.length_map] at hconsistent
  obtain ⟨hlen, hall⟩ := hconsistent
  simp only [Option.any_some, List.all_map, List.all_eq_true, Function.comp_apply,
    signum_equals_iff] at hall
  have hne : (pairedReport outcomes).pairs ≠ [] := by
    intro hnil
    rw [hnil] at hlen
    exact absurd hlen (by decide)
  obtain ⟨p, hp⟩ := List.exists_mem_of_ne_nil _ hne
  refine ⟨(hall p hp).2.1, hne, fun p hp => ?_⟩
  obtain ⟨hnan, -, hneg⟩ := hall p hp
  rw [delta_of_mem hp] at hnan hneg
  have horder := order_of_sub hnan
  rw [hneg] at horder
  split at horder
  next h =>
    rw [if_pos h]
    exact ⟨horder.1, horder.2.1, horder.2.2⟩
  next h =>
    rw [if_neg h]
    exact ⟨horder.1, horder.2.1, horder.2.2⟩

theorem absoluteDelta_eq (outcomes : List RunOutcome) (config : ExperimentConfig) :
    (analyzeOutcomes outcomes config).effect.absoluteDelta =
      difference (median (groupValues outcomes .baseline))
        (median (groupValues outcomes .treatment)) := by
  have hmedian : ∀ group, (summarize group outcomes).median =
      median (groupValues outcomes group) := by
    intro group
    simp only [summarize, groupValues, includedRuns, List.filter_filter, Bool.decide_and,
      Bool.decide_eq_true, Bool.and_comm]
  rw [← hmedian, ← hmedian]
  rfl

/-- Where the sides of all pairs are ordered one way, so are the medians of the groups. -/
theorem sign_of_ordered {outcomes : List RunOutcome} (hpaired : FullyPaired outcomes)
    (hne : (pairedReport outcomes).pairs ≠ []) {delta m : Binary64}
    (hdelta : difference (median (groupValues outcomes .baseline))
      (median (groupValues outcomes .treatment)) = some delta)
    (hdeltaNe : delta.equals 0.0 = false) (hm : m.isNaN = false) (hmNe : m.equals 0.0 = false)
    (hall : ∀ p ∈ (pairedReport outcomes).pairs,
      if m.negative then Ordered p.treatment p.baseline else Ordered p.baseline p.treatment) :
    signOf delta = signOf m := by
  obtain ⟨hbaseline, htreatment⟩ := pairs_perm hpaired
  have hmap : (pairedReport outcomes).pairs.map PairedDifference.baseline ≠ [] := by
    rwa [ne_eq, List.map_eq_nil_iff]
  obtain ⟨hup, hdown⟩ := difference_of_ordered hbaseline htreatment hmap
  have hmrank := rank_ne_zero hm hmNe
  -- the medians are ordered as the pairs are, and their difference is not zero
  cases hneg : m.negative with
  | false =>
      rw [hneg] at hall
      have hle : List.Forall₂ Ordered
          ((pairedReport outcomes).pairs.map PairedDifference.baseline)
          ((pairedReport outcomes).pairs.map PairedDifference.treatment) := by
        rw [List.forall₂_map_left_iff, List.forall₂_map_right_iff, List.forall₂_same]
        exact hall
      obtain ⟨d, hd, hnan, hrank⟩ := hup hle
      obtain rfl := Option.some.inj (hdelta.symm.trans hd)
      have hdrank := rank_ne_zero hnan hdeltaNe
      have hmpos : 0 < m.rank := by
        rw [rank, hneg, if_neg Bool.false_ne_true] at hmrank ⊢
        omega
      rw [signOf_of_pos hnan (by omega), signOf_of_pos hm hmpos]
  | true =>
      rw [hneg] at hall
      have hle : List.Forall₂ Ordered
          ((pairedReport outcomes).pairs.map PairedDifference.treatment)
          ((pairedReport outcomes).pairs.map PairedDifference.baseline) := by
        rw [List.forall₂_map_left_iff, List.forall₂_map_right_iff, List.forall₂_same]
        exact hall
      obtain ⟨d, hd, hnan, hrank⟩ := hdown hle
      obtain rfl := Option.some.inj (hdelta.symm.trans hd)
      have hdrank := rank_ne_zero hnan hdeltaNe
      have hmpos : m.rank < 0 := by
        rw [rank, hneg, if_pos rfl] at hmrank ⊢
        omega
      rw [signOf_of_neg hnan (by omega), signOf_of_neg hm hmpos]

/-- A consistent difference with a paired report has the direction of the pairs. -/
def FollowsPairs (outcomes : List RunOutcome) (config : ExperimentConfig) : Prop :=
  let analysis := analyzeOutcomes outcomes config
  ∀ report, analysis.paired = some report → analysis.classification = .consistentDifference →
    ∃ delta m, analysis.effect.absoluteDelta = some delta ∧ report.medianDelta = some m ∧
      signOf delta = signOf m ∧ analysis.effect.direction = signOf m

theorem report_eq {outcomes : List RunOutcome} {config : ExperimentConfig} {report : PairedReport}
    (hreport : (analyzeOutcomes outcomes config).paired = some report) :
    report = pairedReport outcomes := by
  have hdef : (analyzeOutcomes outcomes config).paired =
      if config.pairing = .paired then some (pairedReport outcomes) else none := rfl
  rw [hdef] at hreport
  split at hreport
  · exact (Option.some.inj hreport).symm
  · cases hreport

theorem exists_medianDelta {outcomes : List RunOutcome}
    (hconsistent : (pairedReport outcomes).consistent = true) :
    ∃ m, (pairedReport outcomes).medianDelta = some m := by
  cases hmedian : (pairedReport outcomes).medianDelta with
  | some m => exact ⟨m, rfl⟩
  | none =>
      have hdef : (pairedReport outcomes).consistent =
          (_ && (pairedReport outcomes).medianDelta.any _) := rfl
      rw [hdef, hmedian, Option.any_none, Bool.and_false] at hconsistent
      cases hconsistent

/-- The direction of an effect is the one of the difference of the groups. If every measured run is
a side of a pair, and the pairs have all moved in the direction of their median, which is not
zero, then it is the one of the pairs. -/
theorem direction_of_pairs (outcomes : List RunOutcome) (config : ExperimentConfig) :
    ((analyzeOutcomes outcomes config).effect.direction =
      ((analyzeOutcomes outcomes config).effect.absoluteDelta.map signOf).getD .unchanged) ∧
    (FullyPaired outcomes → (pairedReport outcomes).consistent = true →
      (∀ m ∈ (pairedReport outcomes).medianDelta, m.equals 0.0 = false) →
      FollowsPairs outcomes config) := by
  have hdirection : (analyzeOutcomes outcomes config).effect.direction =
      ((analyzeOutcomes outcomes config).effect.absoluteDelta.map signOf).getD .unchanged :=
    effectDirection_eq _ _
  refine ⟨hdirection, fun hpaired hconsistent hmoved report hreport hresult => ?_⟩
  obtain rfl := report_eq hreport
  obtain ⟨delta, hdelta, hne⟩ := delta_of_consistent hresult
  obtain ⟨m, hmedian⟩ := exists_medianDelta hconsistent
  obtain ⟨hm, hpairs, hall⟩ := ordered_of_consistent hmedian hconsistent
  have hsign := sign_of_ordered hpaired hpairs ((absoluteDelta_eq outcomes config) ▸ hdelta) hne hm
    (hmoved m hmedian) hall
  refine ⟨delta, m, hdelta, hmedian, hsign, ?_⟩
  rw [hdirection, hdelta, Option.map_some, Option.getD_some, hsign]

/-! ## Runs outside of the pairs -/

def pairedExperiment : ExperimentConfig := { dischargeExperiment with pairing := .paired }

/-- A run of a pair on battery. -/
def pairedRun (id : String) (group : RunGroup) (pairId : Option Nat) (value : Binary64) :
    RunOutcome :=
  { sourceRun id group (some "battery") with pairId, primaryValue := some value }

/-- The numbered pairs of two lists of values. -/
def pairedRuns (values : List (Binary64 × Binary64)) : List RunOutcome :=
  values.zipIdx.flatMap fun v =>
    [pairedRun "b" .baseline (some v.2) v.1.1, pairedRun "t" .treatment (some v.2) v.1.2]

/-- The verdict, the difference of the groups and the median of the paired differences. -/
def verdictOf (outcomes : List RunOutcome) :
    ExperimentResult × Option Binary64 × Option Binary64 :=
  ((analyzeOutcomes outcomes pairedExperiment).classification,
    (analyzeOutcomes outcomes pairedExperiment).effect.absoluteDelta,
    (pairedReport outcomes).medianDelta)

/-- Two pairs fall by two. -/
def fallingPairs : List RunOutcome := pairedRuns [(11, 9), (10, 8)]

theorem fullyPaired_falling : FullyPaired fallingPairs := by
  refine ⟨by decide +kernel, ?_, ?_⟩
  · have hkeys : ((measuredRuns fallingPairs).filterMap fun r =>
        r.pairId.map fun id => (id, r.group)).Nodup := by decide +kernel
    exact hkeys
  · intro r hr group
    have hsides : ∀ r ∈ measuredRuns fallingPairs,
        (∃ r' ∈ measuredRuns fallingPairs, r'.pairId = r.pairId ∧ r'.group = .baseline) ∧
        ∃ r' ∈ measuredRuns fallingPairs, r'.pairId = r.pairId ∧ r'.group = .treatment := by
      decide +kernel
    cases group with
    | baseline => exact (hsides r hr).1
    | treatment => exact (hsides r hr).2

theorem direction_of_falling_pairs :
    verdictOf fallingPairs = (.consistentDifference, some (-2), some (-2)) ∧
      FollowsPairs fallingPairs pairedExperiment :=
  ⟨by decide +kernel, (direction_of_pairs fallingPairs pairedExperiment).2 fullyPaired_falling
    (by decide +kernel) (by decide +kernel)⟩

/-- Both pairs have risen by two, and three more baseline runs lie far above them. -/
def strangers : List RunOutcome :=
  pairedRuns [(10, 12), (11, 13)] ++ List.replicate 3 (pairedRun "u" .baseline none 100)

/-- Three of five pairs have risen by one, and the others fallen. -/
def dividedPairs : List RunOutcome :=
  pairedRuns [(0, 1), (0, 1), (10, 11), (60, -40), (60, -40)]

/-- One of three pairs has risen. -/
def restingPairs : List RunOutcome := pairedRuns [(1, 1), (3, 3), (2, 5)]

theorem not_followsPairs {outcomes : List RunOutcome} {delta m : Binary64}
    (hverdict : verdictOf outcomes = (.consistentDifference, some delta, some m))
    (hsign : signOf delta ≠ signOf m) : ¬FollowsPairs outcomes pairedExperiment := by
  intro hfollows
  obtain ⟨hresult, hrest⟩ := Prod.mk.inj hverdict
  obtain ⟨hdelta, hm⟩ := Prod.mk.inj hrest
  obtain ⟨delta', m', hdelta', hm', hsame, -⟩ := hfollows _ rfl hresult
  obtain rfl := Option.some.inj (hdelta.symm.trans hdelta')
  obtain rfl := Option.some.inj (hm.symm.trans hm')
  exact hsign hsame

/-- The groups differ the other way round, or where the median of the pairs does not. -/
theorem pairs_overruled : ¬FollowsPairs strangers pairedExperiment ∧
    ¬FollowsPairs dividedPairs pairedExperiment ∧ ¬FollowsPairs restingPairs pairedExperiment := by
  refine ⟨?_, ?_, ?_⟩
  · have hverdict : verdictOf strangers = (.consistentDifference, some (-87.5), some 2) := by
      decide +kernel
    exact not_followsPairs hverdict (by decide +kernel)
  · have hverdict : verdictOf dividedPairs = (.consistentDifference, some (-9), some 1) := by
      decide +kernel
    exact not_followsPairs hverdict (by decide +kernel)
  · have hverdict : verdictOf restingPairs = (.consistentDifference, some 1, some 0) := by
      decide +kernel
    exact not_followsPairs hverdict (by decide +kernel)

end PowerForensics.Experiment
