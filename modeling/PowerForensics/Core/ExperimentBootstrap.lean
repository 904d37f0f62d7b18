import PowerForensics.Binary64.Blends
import PowerForensics.Core.ExperimentAgreement
import PowerForensics.Core.Percentiles

/-! # The bootstrapped interval

Samples are drawn from both groups with replacement, and the interval lies between two percentiles
of the differences of their medians. At exact rationals it is an interval between the differences
of the extremes. At binary64 numbers a percentile between two equal differences may be the number
next to them, so that an end can leave these bounds, and the ends can change places.
-/

namespace PowerForensics.Experiment

open Binary64 Stats Merging
open OrderStatistics (between between_mono orderStatistic)

/-! ## At every number type -/

section Generic

variable {α : Type} [Ranked α]

def resampleOf (values : List α) : Nat → UInt64 → List α × UInt64
  | 0, state => ([], state)
  | n + 1, state =>
      let (i, state) := Lcg.index state values.length
      let (rest, state) := resampleOf values n state
      (at_ values i :: rest, state)

def sampleMediansOf : List (List α) → UInt64 → Option (List α × UInt64)
  | [], state => some ([], state)
  | group :: groups, state => do
      if group = [] then none
      let (sample, state) := resampleOf group group.length state
      let m ← medianOf sample
      let (rest, state) ← sampleMediansOf groups state
      return (m :: rest, state)

def bootstrapDiffOf (medians : List α) : α :=
  if 2 ≤ medians.length then medians.getLastD 0.0 - medians.headD 0.0 else medians.headD 0.0

def bootstrapDiffsOf (groups : List (List α)) : Nat → UInt64 → Option (List α)
  | 0, _ => some []
  | n + 1, state => do
      let (medians, state) ← sampleMediansOf groups state
      let rest ← bootstrapDiffsOf groups n state
      return bootstrapDiffOf medians :: rest

/-- The interval of a number of resamples with a generator from a seed. -/
def bootstrapMedianOf (iterations : Nat) (seed : UInt64) (groups : List (List α)) :
    Option (α × α) := do
  let diffs ← bootstrapDiffsOf groups iterations seed
  let lo ← percentileOf diffs 5.0
  let hi ← percentileOf diffs 95.0
  return (lo, hi)

end Generic

/-! ### The bootstrap of the program -/

theorem medianOf_binary64 (values : List Binary64) : medianOf values = median values :=
  percentileOf_binary64 values 50.0

theorem resampleOf_binary64 (values : List Binary64) (n : Nat) (state : UInt64) :
    resampleOf values n state = resample values n state := by
  induction n generalizing state with
  | zero => rfl
  | succ n ih =>
      rw [resampleOf, resample]
      dsimp only
      rw [ih]

theorem sampleMediansOf_binary64 (groups : List (List Binary64)) (state : UInt64) :
    sampleMediansOf groups state = sampleMedians groups state := by
  induction groups generalizing state with
  | nil => rfl
  | cons group groups ih =>
      rw [sampleMediansOf, sampleMedians]
      simp only [resampleOf_binary64, medianOf_binary64, ih]

theorem bootstrapDiffsOf_binary64 (groups : List (List Binary64)) (n : Nat) (state : UInt64) :
    bootstrapDiffsOf groups n state = bootstrapDiffs groups n state := by
  induction n generalizing state with
  | zero => rfl
  | succ n ih =>
      rw [bootstrapDiffsOf, bootstrapDiffs]
      simp only [sampleMediansOf_binary64, ih]
      rfl

/-- At binary64 numbers, with its seed and its number of resamples, it is the bootstrap of the
program. -/
theorem bootstrapMedianOf_binary64 (groups : List (List Binary64)) :
    bootstrapMedianOf 2000 0x9E3779B97F4A7C15 groups = bootstrapMedian groups := by
  rw [bootstrapMedianOf, bootstrapMedian, bootstrapDiffsOf_binary64]
  simp only [percentileOf_binary64]

/-! ## What is drawn -/

section Drawn

variable {α : Type} [Ranked α] {values baseline treatment : List α} {P Q R : α → Prop}

theorem index_lt {n : Nat} (hn : 0 < n) (state : UInt64) : (Lcg.index state n).1 < n := by
  have hmax : max n 1 = n := max_eq_left hn
  rw [Lcg.index]
  dsimp only
  rw [hmax]
  exact Nat.mod_lt _ hn

/-- A sample has as many values as are drawn, and all of them are values of the group. -/
theorem resampleOf_spec (hne : values ≠ []) (n : Nat) (state : UInt64) :
    (resampleOf values n state).1.length = n ∧
      ∀ x ∈ (resampleOf values n state).1, x ∈ values := by
  induction n generalizing state with
  | zero => exact ⟨rfl, List.forall_mem_nil _⟩
  | succ n ih =>
      have hindex := index_lt (List.length_pos_iff.mpr hne) state
      obtain ⟨hlength, hmem⟩ := ih (Lcg.index state values.length).2
      rw [resampleOf]
      dsimp only
      refine ⟨congrArg (· + 1) hlength, List.forall_mem_cons.mpr ⟨?_, hmem⟩⟩
      rw [at_, List.getElem?_eq_getElem hindex, Option.getD_some]
      exact List.getElem_mem hindex

/-- Every sample of some values has a median, with a property. -/
def MediansHave (P : α → Prop) (values : List α) : Prop :=
  ∀ sample, sample ≠ [] → (∀ x ∈ sample, x ∈ values) → ∃ m, medianOf sample = some m ∧ P m

theorem MediansHave.resample (hP : MediansHave P values) (hne : values ≠ []) (state : UInt64) :
    ∃ m, medianOf (resampleOf values values.length state).1 = some m ∧ P m := by
  obtain ⟨hlength, hmem⟩ := resampleOf_spec hne values.length state
  refine hP _ (List.length_pos_iff.mp ?_) hmem
  rw [hlength]
  exact List.length_pos_iff.mpr hne

variable (hbaseline : baseline ≠ []) (htreatment : treatment ≠ []) (hP : MediansHave P baseline)
  (hQ : MediansHave Q treatment)

include hbaseline htreatment hP hQ

/-- One round draws a sample of each group. -/
theorem sampleMediansOf_pair (state : UInt64) : ∃ b t state', P b ∧ Q t ∧
    sampleMediansOf [baseline, treatment] state = some ([b, t], state') := by
  obtain ⟨b, hb, hPb⟩ := hP.resample hbaseline state
  set next := (resampleOf baseline baseline.length state).2 with hnext
  obtain ⟨t, ht, hQt⟩ := hQ.resample htreatment next
  refine ⟨b, t, (resampleOf treatment treatment.length next).2, hPb, hQt, ?_⟩
  rw [sampleMediansOf, if_neg hbaseline]
  simp only [sampleMediansOf, if_neg htreatment, hb, ht, ← hnext, Option.bind_some,
    Option.bind_eq_bind, Option.pure_def]

/-- What the differences of all medians have, every bootstrapped difference has. -/
theorem exists_bootstrapDiffsOf (hR : ∀ b t, P b → Q t → R (t - b)) (n : Nat) (state : UInt64) :
    ∃ diffs, bootstrapDiffsOf [baseline, treatment] n state = some diffs ∧ diffs.length = n ∧
      ∀ d ∈ diffs, R d := by
  induction n generalizing state with
  | zero => exact ⟨[], rfl, rfl, List.forall_mem_nil _⟩
  | succ n ih =>
      obtain ⟨b, t, next, hb, ht, hmedians⟩ :=
        sampleMediansOf_pair hbaseline htreatment hP hQ state
      obtain ⟨diffs, hdiffs, hlength, hall⟩ := ih next
      refine ⟨(t - b) :: diffs, ?_, congrArg (· + 1) hlength,
        List.forall_mem_cons.mpr ⟨hR b t hb ht, hall⟩⟩
      rw [bootstrapDiffsOf, hmedians]
      simp only [hdiffs, Option.bind_eq_bind, Option.bind_some, Option.pure_def]
      rfl

end Drawn

/-- Two numbers that no value is outside of. -/
def Bounds {α : Type} [LE α] (low high : α) (values : List α) : Prop :=
  ∀ x ∈ values, low ≤ x ∧ x ≤ high

/-! ## At exact rationals -/

section Exact

variable {values : List ℚ} {low high p : ℚ}

theorem percentileOf_bounds (hbounds : Bounds low high values) (hne : values ≠ []) (hp : 0 ≤ p)
    (hp' : p ≤ 100) :
    ∃ v, percentileOf values p = some v ∧ low ≤ v ∧ v ≤ high := by
  obtain ⟨least, hleast, greatest, hgreatest, -, hlow, hhigh⟩ := between_extremes hne hp hp'
  exact ⟨_, percentileOf_rat hne hp hp', (hbounds least hleast).1.trans hlow,
    hhigh.trans (hbounds greatest hgreatest).2⟩

theorem mediansHave_rat (hbounds : Bounds low high values) :
    MediansHave (fun m => low ≤ m ∧ m ≤ high) values := by
  intro sample hne hmem
  have hfifty : (50.0 : ℚ) = 50 := by norm_num
  have hmedian : medianOf sample = percentileOf sample 50 :=
    congrArg (percentileOf sample) hfifty
  rw [hmedian]
  exact percentileOf_bounds (fun x hx => hbounds x (hmem x hx)) hne (by norm_num) (by norm_num)

/-- At exact rationals the bootstrapped interval is one, between the differences of bounds. -/
theorem bootstrapMedianOf_rat {baseline treatment : List ℚ} {low' high' : ℚ}
    (hbaseline : baseline ≠ []) (htreatment : treatment ≠ []) (hb : Bounds low high baseline)
    (ht : Bounds low' high' treatment) {iterations : Nat} (hpos : 0 < iterations) (seed : UInt64) :
    ∃ lo hi, bootstrapMedianOf iterations seed [baseline, treatment] = some (lo, hi) ∧ lo ≤ hi ∧
      low' - high ≤ lo ∧ hi ≤ high' - low := by
  have hfive : (5.0 : ℚ) = 5 := by norm_num
  have hninety : (95.0 : ℚ) = 95 := by norm_num
  obtain ⟨diffs, hdiffs, hlength, hall⟩ := exists_bootstrapDiffsOf hbaseline htreatment
    (mediansHave_rat hb) (mediansHave_rat ht) (R := fun d => low' - high ≤ d ∧ d ≤ high' - low)
    (fun b t hb ht => ⟨sub_le_sub ht.1 hb.2, sub_le_sub ht.2 hb.1⟩) iterations seed
  have hne : diffs ≠ [] := by
    rintro rfl
    exact absurd hlength hpos.ne
  obtain ⟨lo, hlo, hlow, -⟩ := percentileOf_bounds (p := 5) hall hne (by norm_num) (by norm_num)
  obtain ⟨hi, hhi, -, hhigh⟩ := percentileOf_bounds (p := 95) hall hne (by norm_num) (by norm_num)
  refine ⟨lo, hi, ?_, ?_, hlow, hhigh⟩
  · rw [bootstrapMedianOf, hdiffs]
    change (do
      let lo ← percentileOf diffs (5.0 : ℚ)
      let hi ← percentileOf diffs (95.0 : ℚ)
      return (lo, hi)) = _
    rw [hfive, hninety, hlo, hhi]
    rfl
  · have hlo' := (percentileOf_rat hne (by norm_num) (by norm_num)).symm.trans hlo
    have hhi' := (percentileOf_rat hne (by norm_num) (by norm_num)).symm.trans hhi
    obtain rfl := Option.some.inj hlo'
    obtain rfl := Option.some.inj hhi'
    exact between_mono (mono_values hne) (rankOf_nonneg _ (by norm_num))
      (rankOf_mono _ (by norm_num)) (rankOf_le _ (by norm_num))

end Exact

/-! ## At binary64 numbers -/

/-- Where a percentile is among the bootstrapped differences. -/
def place (p : Binary64) : Binary64 := p / 100.0 * ofNat 1999

/-- A percentile lies between two of the differences, as the weights of both say. -/
structure At (p : Binary64) (i : Nat) : Prop where
  valid : (0.0 : Binary64) ≤ p ∧ p ≤ (100.0 : Binary64)
  indices : (place p).floor.toUnsigned 64 = i ∧ (place p).ceil.toUnsigned 64 = i + 1
  weights : Weights (1.0 - (place p - ofNat i)) (place p - ofNat i)

theorem at_ends : At 5.0 99 ∧ At 95.0 1899 := by
  constructor
  · exact ⟨by decide +kernel, by decide +kernel, by decide +kernel⟩
  · exact ⟨by decide +kernel, by decide +kernel, by decide +kernel⟩

theorem at_five : At 5.0 99 := at_ends.1

theorem at_ninety_five : At 95.0 1899 := at_ends.2

theorem At.percentile {p : Binary64} {i : Nat} (h : At p i) {diffs : List Binary64}
    (hlength : diffs.length = 2000) : percentileSorted diffs p =
      some (blend (1.0 - (place p - ofNat i)) (place p - ofNat i)
        (at_ (stableSort totalRank diffs) i) (at_ (stableSort totalRank diffs) (i + 1))) := by
  have hne : diffs ≠ [] := by
    rintro rfl
    exact absurd hlength (by decide)
  have hvalid : ¬(diffs = [] ∨ ¬((0.0 : Binary64) ≤ p ∧ p ≤ (100.0 : Binary64))) := by
    rw [not_or, not_not]
    exact ⟨hne, h.valid⟩
  obtain ⟨hfloor, hceil⟩ := h.indices
  have hplace : p / 100.0 * ofNat (2000 - 1) = place p := rfl
  rw [percentileSorted, if_neg hvalid, hlength]
  dsimp only
  rw [hplace, hfloor, hceil, if_neg (Nat.succ_ne_self i).symm]
  rfl

section Binary

variable {low high low' high' : Binary64} {diffs values : List Binary64}

/-- The differences in their order. -/
theorem sorted_bounds (hall : Bounds low high diffs) (hlength : diffs.length = 2000) {i j : Nat}
    (hij : i ≤ j) (hj : j < 2000) :
    low ≤ at_ (stableSort totalRank diffs) i ∧
      at_ (stableSort totalRank diffs) i ≤ at_ (stableSort totalRank diffs) j ∧
      at_ (stableSort totalRank diffs) j ≤ high := by
  have hperm := stableSort_perm totalRank diffs
  have hsorted : (stableSort totalRank diffs).length = 2000 := hperm.length_eq.trans hlength
  have hbounds (k : Nat) (hk : k < 2000) : low ≤ at_ (stableSort totalRank diffs) k ∧
      at_ (stableSort totalRank diffs) k ≤ high :=
    hall _ (hperm.mem_iff.mp (at_mem (hsorted.symm ▸ hk)))
  refine ⟨(hbounds i (hij.trans_lt hj)).1, ?_, (hbounds j hj).2⟩
  have hi' : i < (stableSort totalRank diffs).length := hsorted.symm ▸ hij.trans_lt hj
  have hj' : j < (stableSort totalRank diffs).length := hsorted.symm ▸ hj
  refine le_of_totalRank (hbounds i (hij.trans_lt hj)).1.2.1 (hbounds j hj).1.2.1 ?_
  rw [at_, at_, List.getElem?_eq_getElem hi', List.getElem?_eq_getElem hj', Option.getD_some,
    Option.getD_some]
  rcases hij.eq_or_lt with rfl | hlt
  · exact le_rfl
  · exact List.pairwise_iff_getElem.mp (ascending_stableSort totalRank diffs) i j hi' hj' hlt

/-- The percentiles of ordered differences are ordered up to two places. -/
theorem percentiles_near (hall : Bounds low high diffs) (hlength : diffs.length = 2000)
    (hlow : low.isFinite = true) (hhigh : high.isFinite = true) :
    ∃ lo hi, percentileSorted diffs 5.0 = some lo ∧ percentileSorted diffs 95.0 = some hi ∧
      LeUpTo 2 lo hi ∧ ∀ x ∈ [lo, hi], LeUpTo 1 low x ∧ LeUpTo 1 x high := by
  refine ⟨_, _, at_five.percentile hlength, at_ninety_five.percentile hlength, ?_, ?_⟩
  · obtain ⟨hfirst, hgap, hlast⟩ :=
      sorted_bounds hall hlength (show 99 + 1 ≤ 1899 by decide) (by decide)
    obtain ⟨hbelow, hstep, -⟩ :=
      sorted_bounds hall hlength (show 99 ≤ 99 + 1 by decide) (by decide)
    obtain ⟨-, hstep', habove⟩ :=
      sorted_bounds hall hlength (show 1899 ≤ 1899 + 1 by decide) (by decide)
    have hmiddle := finite_between (le_trans_number hfirst hgap) hlast hlow hhigh
    have hmiddle' := finite_between hfirst (le_trans_number hgap hlast) hlow hhigh
    have hlo := (at_five.weights.blend_bounds hbelow hstep (le_of_number hfirst.2.1) hlow
      hmiddle').2
    have hhi := (at_ninety_five.weights.blend_bounds (le_of_number hlast.1) hstep' habove hmiddle
      hhigh).1
    refine ⟨hlo.1, hhi.2.1, ?_⟩
    have hlo := hlo.2.2
    have hhi := hhi.2.2
    have hgap := hgap.2.2
    omega
  · simp only [List.forall_mem_cons, List.not_mem_nil, false_implies, implies_true, and_true]
    obtain ⟨hbelow, hstep, habove⟩ :=
      sorted_bounds hall hlength (show 99 ≤ 99 + 1 by decide) (by decide)
    obtain ⟨hbelow', hstep', habove'⟩ :=
      sorted_bounds hall hlength (show 1899 ≤ 1899 + 1 by decide) (by decide)
    exact ⟨at_five.weights.blend_bounds hbelow hstep habove hlow hhigh,
      at_ninety_five.weights.blend_bounds hbelow' hstep' habove' hlow hhigh⟩

/-- A finite number that is twice its half. -/
def Halved (x : Binary64) : Prop := x.isFinite = true ∧ middle x x = x

theorem halved_of_large {x : Binary64} (hx : x.isFinite = true)
    (hlarge : 2 * 2 ^ 52 ≤ x.magnitude) : Halved x := ⟨hx, middle_self hx hlarge⟩

theorem mediansHave_binary64 (hbounds : Bounds low high values) (hlow : Halved low)
    (hhigh : Halved high) : MediansHave (fun m => low ≤ m ∧ m ≤ high) values := by
  intro sample hne hmem
  rw [medianOf_binary64]
  refine median_of_all (p := fun m => low ≤ m ∧ m ≤ high) (fun {x y} hx hy => ?_) hne
    fun x hx => hbounds x (hmem x hx)
  have hxfin := finite_between hx.1 hx.2 hlow.1 hhigh.1
  have hyfin := finite_between hy.1 hy.2 hlow.1 hhigh.1
  constructor
  · rw [← hlow.2]
    exact middle_mono (low_of_finite hlow.1) (low_of_finite hlow.1) (high_of_finite hxfin)
      (high_of_finite hyfin) hx.1 hy.1
  · rw [← hhigh.2]
    exact middle_mono (low_of_finite hxfin) (low_of_finite hyfin) (high_of_finite hhigh.1)
      (high_of_finite hhigh.1) hx.2 hy.2

/-- A difference of numbers between bounds is between the differences of the bounds. -/
theorem sub_bounds {b t : Binary64} (hb : low ≤ b ∧ b ≤ high) (ht : low' ≤ t ∧ t ≤ high')
    (hleast : (low' - high).isFinite = true) (hgreatest : (high' - low).isFinite = true) :
    low' - high ≤ t - b ∧ t - b ≤ high' - low := by
  obtain ⟨hlow', hhigh⟩ := finite_of_add (x := low') (y := -high) hleast
  obtain ⟨hhigh', hlow⟩ := finite_of_add (x := high') (y := -low) hgreatest
  rw [isFinite_neg] at hhigh hlow
  have hbfin := finite_between hb.1 hb.2 hlow hhigh
  have htfin := finite_between ht.1 ht.2 hlow' hhigh'
  constructor
  · refine le_trans_number (sub_le_sub_left_number hlow' hbfin hhigh hb.2) ?_
    refine add_le_add_number ht.1 (le_of_number ((isNaN_neg b).trans hb.1.2.1)) ?_ ?_
    · exact (rank_add hlow' ((isFinite_neg b).trans hbfin)).1
    · exact (rank_add htfin ((isFinite_neg b).trans hbfin)).1
  · refine le_trans_number (sub_le_sub_left_number htfin hlow hbfin hb.1) ?_
    refine add_le_add_number ht.2 (le_of_number ((isNaN_neg low).trans hb.1.1)) ?_ ?_
    · exact (rank_add htfin ((isFinite_neg low).trans hlow)).1
    · exact (rank_add hhigh' ((isFinite_neg low).trans hlow)).1

/-- At binary64 numbers the ends are at most one place outside of the differences of the bounds, and
the lower one at most two places above the upper one. -/
theorem bootstrapMedianOf_near {baseline treatment : List Binary64} (hbaseline : baseline ≠ [])
    (htreatment : treatment ≠ []) (hb : Bounds low high baseline)
    (ht : Bounds low' high' treatment) (hhalved : ∀ x ∈ [low, high, low', high'], Halved x)
    (hleast : (low' - high).isFinite = true) (hgreatest : (high' - low).isFinite = true)
    (seed : UInt64) :
    ∃ lo hi, bootstrapMedianOf 2000 seed [baseline, treatment] = some (lo, hi) ∧ LeUpTo 2 lo hi ∧
      ∀ x ∈ [lo, hi], LeUpTo 1 (low' - high) x ∧ LeUpTo 1 x (high' - low) := by
  simp only [List.forall_mem_cons, List.not_mem_nil, false_implies, implies_true,
    and_true] at hhalved
  obtain ⟨hlow, hhigh, hlow', hhigh'⟩ := hhalved
  obtain ⟨diffs, hdiffs, hlength, hall⟩ := exists_bootstrapDiffsOf hbaseline htreatment
    (mediansHave_binary64 hb hlow hhigh) (mediansHave_binary64 ht hlow' hhigh')
    (R := fun d => low' - high ≤ d ∧ d ≤ high' - low)
    (fun b t hb ht => sub_bounds hb ht hleast hgreatest) 2000 seed
  obtain ⟨lo, hi, hlo, hhi, hle, hnear⟩ := percentiles_near hall hlength hleast hgreatest
  refine ⟨lo, hi, ?_, hle, hnear⟩
  rw [bootstrapMedianOf, hdiffs]
  simp only [percentileOf_binary64, hlo, hhi, Option.bind_eq_bind, Option.bind_some,
    Option.pure_def]

end Binary

/-- The bootstrapped interval lies between the differences of any bounds of the groups: exactly at
exact rationals, and up to one place at binary64 numbers, where its ends are ordered up to two. -/
theorem bootstrap_interval :
    (∀ (baseline treatment : List ℚ) (low high low' high' : ℚ) (iterations : Nat) (seed : UInt64),
      baseline ≠ [] → treatment ≠ [] → Bounds low high baseline → Bounds low' high' treatment →
      0 < iterations →
      ∃ lo hi, bootstrapMedianOf iterations seed [baseline, treatment] = some (lo, hi) ∧
        lo ≤ hi ∧ low' - high ≤ lo ∧ hi ≤ high' - low) ∧
    ∀ (baseline treatment : List Binary64) (low high low' high' : Binary64) (seed : UInt64),
      baseline ≠ [] → treatment ≠ [] → Bounds low high baseline → Bounds low' high' treatment →
      (∀ x ∈ [low, high, low', high'], Halved x) → (low' - high).isFinite = true →
      (high' - low).isFinite = true →
      ∃ lo hi, bootstrapMedianOf 2000 seed [baseline, treatment] = some (lo, hi) ∧
        LeUpTo 2 lo hi ∧ ∀ x ∈ [lo, hi], LeUpTo 1 (low' - high) x ∧ LeUpTo 1 x (high' - low) :=
  ⟨fun _ _ _ _ _ _ _ seed hbaseline htreatment hb ht hpos =>
      bootstrapMedianOf_rat hbaseline htreatment hb ht hpos seed,
    fun _ _ _ _ _ _ seed hbaseline htreatment hb ht hhalved hleast hgreatest =>
      bootstrapMedianOf_near hbaseline htreatment hb ht hhalved hleast hgreatest seed⟩

theorem bootstrap_interval_runs :
    (∃ lo hi, bootstrapMedianOf 2000 1 [[1, 2], [3, (4 : ℚ)]] = some (lo, hi) ∧ lo ≤ hi ∧
      (3 - 2 : ℚ) ≤ lo ∧ hi ≤ 4 - 1) ∧
    ∃ lo hi, bootstrapMedianOf 2000 1 [[1.0, 2.0], [3.0, (4.0 : Binary64)]] = some (lo, hi) ∧
      LeUpTo 2 lo hi ∧
      ∀ x ∈ [lo, hi], LeUpTo 1 (3.0 - 2.0 : Binary64) x ∧ LeUpTo 1 x (4.0 - 1.0) := by
  constructor
  · refine bootstrap_interval.1 [1, 2] [3, 4] 1 2 3 4 2000 1 (List.cons_ne_nil _ _)
      (List.cons_ne_nil _ _) ?_ ?_ (by decide)
    · unfold Bounds
      norm_num
    · unfold Bounds
      norm_num
  · refine bootstrap_interval.2 [1.0, 2.0] [3.0, 4.0] 1.0 2.0 3.0 4.0 1 (List.cons_ne_nil _ _)
      (List.cons_ne_nil _ _) ?_ ?_ ?_ (by decide +kernel) (by decide +kernel)
    · unfold Bounds
      decide +kernel
    · unfold Bounds
      decide +kernel
    · unfold Halved
      decide +kernel

/-- Where all runs of a group are the same, the ends are the rounded blends of one difference. -/
theorem ends_swapped : ∃ lo,
    bootstrapMedian [[0.0, 0.0, 0.0], [271.3, 271.3, 271.3]] = some (lo, 271.3) ∧ 271.3 < lo := by
  have hmedians (x : Binary64) (hx : middle x x = x) : MediansHave (· = x) [x, x, x] := by
    intro sample hne hmem
    rw [medianOf_binary64]
    refine median_of_all (p := (· = x)) (fun {y z} hy hz => ?_) hne fun y hy => ?_
    · rw [hy, hz, hx]
    · simpa using hmem y hy
  obtain ⟨diffs, hdiffs, hlength, hall⟩ := exists_bootstrapDiffsOf (R := (· = 271.3))
    (List.cons_ne_nil _ _) (List.cons_ne_nil _ _) (hmedians 0.0 (by decide +kernel))
    (hmedians 271.3 (by decide +kernel)) (fun b t hb ht => by rw [hb, ht]; decide +kernel) 2000
    0x9E3779B97F4A7C15
  have hat (i : Nat) (hi : i < 2000) : at_ (stableSort totalRank diffs) i = 271.3 := by
    have hperm := stableSort_perm totalRank diffs
    exact hall _ (hperm.mem_iff.mp (at_mem ((hperm.length_eq.trans hlength).symm ▸ hi)))
  refine ⟨blend (1.0 - (place 5.0 - ofNat 99)) (place 5.0 - ofNat 99) 271.3 271.3, ?_,
    by decide +kernel⟩
  have hhi : blend (1.0 - (place 95.0 - ofNat 1899)) (place 95.0 - ofNat 1899) 271.3 271.3 =
      271.3 := by decide +kernel
  rw [bootstrapMedian, ← bootstrapDiffsOf_binary64, hdiffs]
  simp only [at_five.percentile hlength, at_ninety_five.percentile hlength, hat 99 (by decide),
    hat (99 + 1) (by decide), hat 1899 (by decide), hat (1899 + 1) (by decide), hhi,
    Option.bind_eq_bind, Option.bind_some, Option.pure_def]

end PowerForensics.Experiment
