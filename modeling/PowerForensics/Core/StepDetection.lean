import PowerForensics.Core.ExperimentBootstrap
import PowerForensics.Core.Capture
import PowerForensics.System.Extremes

/-! # The largest step of a power series

A step is looked for between two windows next to each other, at every place of the series where
both fit. Of the steps that clear the threshold the first of the largest is kept. Where the power
has two levels, the window behind a place sees the change before it reaches it: the step has the
whole difference of the levels, and is found up to half a window early.
-/

namespace PowerForensics.Analysis

open Session Stats Binary64 Extremes

/-! ## Model -/

structure StepChange where
  index : Nat
  beforeMedianW : Binary64
  afterMedianW : Binary64
  deltaW : Binary64
  confidence : Confidence
  evidence : String

/-- The windows in front of a place and behind it. -/
def windowBefore (power : List Binary64) (window i : Nat) : List Binary64 :=
  (power.drop (i - window)).take window

def windowAfter (power : List Binary64) (window i : Nat) : List Binary64 :=
  (power.drop i).take window

def stepEvidence (before after : Binary64) (window i : Nat) : String :=
  s!"median {String.ofList (before.fixed 2)} W -> {String.ofList (after.fixed 2)} W over " ++
    s!"{window}-sample windows at index {i}"

/-- The step between two windows. -/
def StepChange.of (before after : PowerSummary) (window : Nat) (thresholdW : Binary64) (i : Nat) :
    StepChange where
  index := i
  beforeMedianW := before.median
  afterMedianW := after.median
  deltaW := after.median - before.median
  confidence := if 2.0 * thresholdW ≤ (after.median - before.median).abs then .high else .medium
  evidence := stepEvidence before.median after.median window i

/-- One place of the search; without a summary of both windows the search ends. -/
def searchStep (power : List Binary64) (window : Nat) (thresholdW : Binary64)
    (best : Option StepChange) (i : Nat) : Option (Option StepChange) := do
  let before ← PowerSummary.of (windowBefore power window i)
  let after ← PowerSummary.of (windowAfter power window i)
  let delta := after.median - before.median
  let dominated := best.map fun b => decide (b.deltaW.abs < delta.abs)
  return if thresholdW ≤ delta.abs ∧ dominated.getD true = true then
      some (.of before after window thresholdW i)
    else best

/-- The places where a window fits on both sides. -/
def places (power : List Binary64) (window : Nat) : List Nat :=
  List.range' window (power.length - window + 1 - window)

def detectStep (power : List Binary64) (window : Nat) (thresholdW : Binary64) :
    Option StepChange :=
  if window = 0 ∨ power.length < 2 * window then none
  else ((places power window).foldlM (searchStep power window thresholdW) none).join

/-! ## The first of the largest -/

section Search

variable {power : List Binary64} {window : Nat} {thresholdW : Binary64} {st : StepChange}

/-- The step at a place where both windows fit. -/
def stepAt (power : List Binary64) (window : Nat) (thresholdW : Binary64) (i : Nat) :
    Option StepChange :=
  if window ≤ i ∧ i + window ≤ power.length then do
    let before ← PowerSummary.of (windowBefore power window i)
    let after ← PowerSummary.of (windowAfter power window i)
    return .of before after window thresholdW i
  else none

def StepChange.Clears (thresholdW : Binary64) (st : StepChange) : Prop :=
  thresholdW ≤ st.deltaW.abs

instance : DecidablePred (StepChange.Clears thresholdW) := fun st =>
  inferInstanceAs (Decidable (thresholdW ≤ st.deltaW.abs))

/-- Larger steps come first. -/
def StepChange.smallness (st : StepChange) : Int := -st.deltaW.abs.rank

/-- The steps that clear the threshold, in their order. -/
def clearing (power : List Binary64) (window : Nat) (thresholdW : Binary64) : List StepChange :=
  ((places power window).filterMap (stepAt power window thresholdW)).filter
    fun st => st.Clears thresholdW

theorem mem_places (hfits : 2 * window ≤ power.length) {i : Nat} :
    i ∈ places power window ↔ window ≤ i ∧ i + window ≤ power.length := by
  rw [places, List.mem_range'_1]
  omega

theorem exists_summary {values : List Binary64} (hvalues : values ≠ []) :
    ∃ summary, PowerSummary.of values = some summary ∧
      Stats.median values = some summary.median := by
  obtain ⟨median, hmedian⟩ := exists_percentileSorted hvalues (p := 50.0) (by decide +kernel)
  obtain ⟨p10, hp10⟩ := exists_percentileSorted hvalues (p := 10.0) (by decide +kernel)
  obtain ⟨p90, hp90⟩ := exists_percentileSorted hvalues (p := 90.0) (by decide +kernel)
  rw [PowerSummary.of, if_neg hvalues, hmedian, hp10, hp90, Experiment.mean, if_neg hvalues]
  exact ⟨_, rfl, hmedian⟩

theorem windows_nonempty (hwindow : 0 < window) {i : Nat} (hfits : i + window ≤ power.length) :
    windowBefore power window i ≠ [] ∧ windowAfter power window i ≠ [] := by
  rw [windowBefore, windowAfter, ← List.length_pos_iff, ← List.length_pos_iff, List.length_take,
    List.length_take, List.length_drop, List.length_drop]
  omega

theorem exists_stepAt (thresholdW : Binary64) (hwindow : 0 < window) {i : Nat} (hi : window ≤ i)
    (hfits : i + window ≤ power.length) :
    ∃ before after, PowerSummary.of (windowBefore power window i) = some before ∧
      PowerSummary.of (windowAfter power window i) = some after ∧
      stepAt power window thresholdW i = some (.of before after window thresholdW i) := by
  obtain ⟨hbefore, hafter⟩ := windows_nonempty hwindow hfits
  obtain ⟨before, hbefore, -⟩ := exists_summary hbefore
  obtain ⟨after, hafter, -⟩ := exists_summary hafter
  refine ⟨before, after, hbefore, hafter, ?_⟩
  rw [stepAt, if_pos ⟨hi, hfits⟩, hbefore, hafter]
  rfl

/-- One place of the search keeps the step there if it clears the threshold and is larger. -/
def larger (thresholdW : Binary64) (best : Option StepChange) (st : StepChange) :
    Option StepChange :=
  if st.Clears thresholdW then List.argAux (fun a b => a.smallness < b.smallness) best st else best

theorem searchStep_eq (hwindow : 0 < window) {i : Nat} (hi : window ≤ i)
    (hfits : i + window ≤ power.length) {best : Option StepChange}
    (hbest : ∀ b ∈ best, b.Clears thresholdW) :
    ∃ st, stepAt power window thresholdW i = some st ∧
      searchStep power window thresholdW best i = some (larger thresholdW best st) := by
  obtain ⟨before, after, hbefore, hafter, hstep⟩ :=
    exists_stepAt thresholdW hwindow hi hfits
  refine ⟨_, hstep, ?_⟩
  rw [searchStep, hbefore, hafter]
  simp only [Option.pure_def, Option.bind_eq_bind, Option.bind_some, Option.some.injEq]
  by_cases hclears : (StepChange.of before after window thresholdW i).Clears thresholdW
  · rw [larger, if_pos hclears]
    have hdelta : thresholdW ≤ (after.median - before.median).abs := hclears
    cases best with
    | none => exact if_pos ⟨hdelta, rfl⟩
    | some b =>
        have hlarger : b.deltaW.abs < (after.median - before.median).abs ↔
            (StepChange.of before after window thresholdW i).smallness < b.smallness := by
          rw [lt_iff_rank (hbest b rfl).2.1 hdelta.2.1, StepChange.smallness, StepChange.smallness]
          exact Int.neg_lt_neg_iff.symm
        simp only [Option.map_some, Option.getD_some, decide_eq_true_eq, hdelta, true_and, hlarger]
        rfl
  · rw [larger, if_neg hclears, if_neg fun h => hclears h.1]

/-- The search goes over the steps. -/
theorem foldlM_searchStep (hwindow : 0 < window) {is : List Nat}
    (his : ∀ i ∈ is, window ≤ i ∧ i + window ≤ power.length) {best : Option StepChange}
    (hbest : ∀ b ∈ best, b.Clears thresholdW) :
    is.foldlM (searchStep power window thresholdW) best =
      some ((is.filterMap (stepAt power window thresholdW)).foldl (larger thresholdW) best) := by
  induction is generalizing best with
  | nil => rfl
  | cons i is ih =>
      obtain ⟨⟨hi, hfits⟩, his⟩ := List.forall_mem_cons.mp his
      obtain ⟨st, hst, hsearch⟩ := searchStep_eq hwindow hi hfits hbest
      have hnext : ∀ b ∈ larger thresholdW best st, b.Clears thresholdW := by
        intro b hb
        rw [larger] at hb
        split at hb
        next hclears =>
          cases best with
          | none =>
              obtain rfl := Option.some.inj hb
              exact hclears
          | some c =>
              rcases ite_eq_or_eq (st.smallness < c.smallness) (some st) (some c) with heq | heq
              · obtain rfl := Option.some.inj (heq.symm.trans hb)
                exact hclears
              · obtain rfl := Option.some.inj (heq.symm.trans hb)
                exact hbest _ rfl
        next => exact hbest b hb
      rw [List.foldlM_cons, hsearch, List.filterMap_cons_some hst, List.foldl_cons]
      exact ih his hnext

theorem foldl_larger (steps : List StepChange) (best : Option StepChange) :
    steps.foldl (larger thresholdW) best =
      (steps.filter fun st => st.Clears thresholdW).foldl
        (List.argAux fun a b => a.smallness < b.smallness) best := by
  induction steps generalizing best with
  | nil => rfl
  | cons st steps ih =>
      rw [List.foldl_cons, ih, larger]
      by_cases hclears : st.Clears thresholdW
      · rw [if_pos hclears, List.filter_cons_of_pos (by simpa using hclears), List.foldl_cons]
      · rw [if_neg hclears, List.filter_cons_of_neg (by simpa using hclears)]

/-- The step that is found is the first of the largest. -/
theorem detectStep_eq (hwindow : 0 < window) (hfits : 2 * window ≤ power.length) :
    detectStep power window thresholdW =
      leastBy StepChange.smallness (clearing power window thresholdW) := by
  have hplaces := fun i (hi : i ∈ places power window) => (mem_places hfits).mp hi
  rw [detectStep, if_neg (by omega), foldlM_searchStep hwindow hplaces (fun b hb => by cases hb),
    foldl_larger]
  rfl

theorem index_of_stepAt {i : Nat} (h : stepAt power window thresholdW i = some st) :
    st.index = i := by
  rw [stepAt] at h
  split at h
  · simp only [Option.bind_eq_bind, Option.bind_eq_some_iff, Option.pure_def] at h
    obtain ⟨before, -, after, -, hst⟩ := h
    rw [← Option.some.inj hst]
    rfl
  · cases h

theorem fits_of_stepAt {i : Nat} (h : stepAt power window thresholdW i = some st) :
    window ≤ i ∧ i + window ≤ power.length := by
  rw [stepAt] at h
  exact (Option.ite_none_right_eq_some.mp h).1

theorem mem_clearing {st : StepChange} : st ∈ clearing power window thresholdW ↔
    (∃ i, stepAt power window thresholdW i = some st) ∧ st.Clears thresholdW := by
  rw [clearing, List.mem_filter, List.mem_filterMap, decide_eq_true_eq]
  refine and_congr_left fun _ => ⟨fun ⟨i, _, hst⟩ => ⟨i, hst⟩, fun ⟨i, hst⟩ => ⟨i, ?_, hst⟩⟩
  obtain ⟨hi, hfits⟩ := fits_of_stepAt hst
  rw [mem_places (by omega)]
  exact ⟨hi, hfits⟩

/-- The steps are in the order of their places. -/
theorem ascending_clearing :
    (clearing power window thresholdW).Pairwise fun a b => a.index < b.index := by
  refine List.Pairwise.filter _ (List.Pairwise.filterMap _ ?_ (List.pairwise_lt_range' 1))
  intro i j hij a ha b hb
  rw [index_of_stepAt ha, index_of_stepAt hb]
  exact hij

theorem abs_le_iff {a b : StepChange} (ha : a.Clears thresholdW) (hb : b.Clears thresholdW) :
    a.smallness ≤ b.smallness ↔ b.deltaW.abs ≤ a.deltaW.abs := by
  rw [StepChange.smallness, StepChange.smallness, Int.neg_le_neg_iff]
  exact ⟨fun h => ⟨hb.2.1, ha.2.1, h⟩, fun h => h.2.2⟩

theorem abs_lt_iff {a b : StepChange} (ha : a.Clears thresholdW) (hb : b.Clears thresholdW) :
    a.smallness < b.smallness ↔ b.deltaW.abs < a.deltaW.abs := by
  rw [StepChange.smallness, StepChange.smallness, Int.neg_lt_neg_iff]
  exact (lt_iff_rank hb.2.1 ha.2.1).symm

/-- A step is the difference of the medians of its windows. -/
theorem medians_of_stepAt (hwindow : 0 < window) {i : Nat}
    (h : stepAt power window thresholdW i = some st) :
    Stats.median (windowBefore power window i) = some st.beforeMedianW ∧
      Stats.median (windowAfter power window i) = some st.afterMedianW ∧
      st.deltaW = st.afterMedianW - st.beforeMedianW := by
  obtain ⟨hi, hfits⟩ := fits_of_stepAt h
  obtain ⟨hbefore, hafter⟩ := windows_nonempty hwindow hfits
  obtain ⟨before, hbefore, hmedian⟩ := exists_summary hbefore
  obtain ⟨after, hafter, hmedian'⟩ := exists_summary hafter
  rw [stepAt, if_pos ⟨hi, hfits⟩, hbefore, hafter] at h
  obtain rfl := Option.some.inj h
  exact ⟨hmedian, hmedian', rfl⟩

/-- A step that clears the threshold, is exceeded by no other and by none before it equalled. -/
structure LargestStep (power : List Binary64) (window : Nat) (thresholdW : Binary64)
    (st : StepChange) : Prop where
  at_ : stepAt power window thresholdW st.index = some st
  clears : thresholdW ≤ st.deltaW.abs
  largest : ∀ i st', stepAt power window thresholdW i = some st' → thresholdW ≤ st'.deltaW.abs →
    st'.deltaW.abs ≤ st.deltaW.abs ∧ (i < st.index → st'.deltaW.abs < st.deltaW.abs)

theorem firstLeast_clearing_iff : FirstLeast StepChange.smallness
    (clearing power window thresholdW) st ↔ LargestStep power window thresholdW st := by
  rw [firstLeast_iff_of_ascending ascending_clearing]
  constructor
  · rintro ⟨hmem, hleast⟩
    obtain ⟨⟨i, hi⟩, hclears⟩ := mem_clearing.mp hmem
    refine ⟨(index_of_stepAt hi).symm ▸ hi, hclears, fun j st' hst' hclears' => ?_⟩
    obtain ⟨hle, hlt⟩ := hleast st' (mem_clearing.mpr ⟨⟨j, hst'⟩, hclears'⟩)
    rw [index_of_stepAt hst'] at hlt
    exact ⟨(abs_le_iff hclears hclears').mp hle,
      fun hj => (abs_lt_iff hclears hclears').mp (hlt hj)⟩
  · rintro ⟨hst, hclears, hlargest⟩
    refine ⟨mem_clearing.mpr ⟨⟨_, hst⟩, hclears⟩, fun st' hmem => ?_⟩
    obtain ⟨⟨j, hj⟩, hclears'⟩ := mem_clearing.mp hmem
    obtain ⟨hle, hlt⟩ := hlargest j st' hj hclears'
    rw [index_of_stepAt hj]
    exact ⟨(abs_le_iff hclears hclears').mpr hle,
      fun hj => (abs_lt_iff hclears hclears').mpr (hlt hj)⟩

/-- A search that finds nothing is one for an empty window, or no step clears the threshold. What
is found is the first of the largest steps that do. -/
theorem detectStep_spec (power : List Binary64) (window : Nat) (thresholdW : Binary64) :
    (∀ st, detectStep power window thresholdW = some st ↔
      0 < window ∧ LargestStep power window thresholdW st) ∧
      (detectStep power window thresholdW = none ↔ 0 < window → ∀ i st,
        stepAt power window thresholdW i = some st → ¬ thresholdW ≤ st.deltaW.abs) := by
  by_cases hsearch : window = 0 ∨ power.length < 2 * window
  · -- nothing is searched
    have hnone : detectStep power window thresholdW = none := by rw [detectStep, if_pos hsearch]
    have hempty : 0 < window → ∀ i st, stepAt power window thresholdW i ≠ some st := by
      intro hwindow i st hst
      obtain ⟨hi, hfits⟩ := fits_of_stepAt hst
      omega
    refine ⟨fun st => ⟨fun h => ?_, fun ⟨hwindow, h⟩ => ?_⟩, ?_⟩
    · rw [hnone] at h
      cases h
    · exact absurd h.at_ (hempty hwindow _ st)
    · exact ⟨fun _ hwindow i st hst => absurd hst (hempty hwindow i st), fun _ => hnone⟩
  · obtain ⟨hwindow, hfits⟩ := not_or.mp hsearch
    have hpos := Nat.pos_of_ne_zero hwindow
    rw [detectStep_eq hpos (Nat.not_lt.mp hfits)]
    refine ⟨fun st => ?_, ?_⟩
    · rw [leastBy_eq_some, firstLeast_clearing_iff]
      exact (and_iff_right hpos).symm
    · rw [leastBy, List.argmin_eq_none, List.eq_nil_iff_forall_not_mem]
      refine ⟨fun h _ i st hst hclears => h st (mem_clearing.mpr ⟨⟨i, hst⟩, hclears⟩),
        fun h st hst => ?_⟩
      obtain ⟨⟨i, hi⟩, hclears⟩ := mem_clearing.mp hst
      exact h hpos i st hi hclears

end Search

/-! ## Two levels -/

section Levels

/-- Half of a count of even units, rounded up. -/
theorem half_above {k u c : Nat} (hc : 0 < c) (heven : 2 * (c / 2) = c) (htwice : 2 * u = k * c) :
    (u + c - 1) / c = (k + 1) / 2 := by
  rcases Nat.even_or_odd' k with ⟨j, rfl | rfl⟩
  · have hu : u = j * c := by
      rw [Nat.mul_assoc] at htwice
      exact Nat.eq_of_mul_eq_mul_left Nat.two_pos htwice
    have hj : (2 * j + 1) / 2 = j := by omega
    rw [hj, hu]
    refine Nat.div_eq_of_lt_le ?_ ?_
    · omega
    · rw [Nat.succ_mul]
      omega
  · rw [Nat.succ_mul (2 * j), Nat.mul_assoc] at htwice
    have hj : (2 * j + 1 + 1) / 2 = j + 1 := by omega
    rw [hj]
    refine Nat.div_eq_of_lt_le ?_ ?_
    · rw [Nat.succ_mul]
      omega
    · rw [Nat.succ_mul, Nat.succ_mul]
      omega

/-- The middle of a count that has an exact half. -/
theorem middlePlaces_eq {n : Nat} (hn : n < 2 ^ 53) :
    Experiment.middlePlaces n = ((n - 1) / 2, n / 2) := by
  have hlt : n - 1 < 2 ^ 53 := (Nat.sub_le n 1).trans_lt hn
  have hhigher : (n - 1 + 1) / 2 = n / 2 := by omega
  have hindex : ∀ m < 2 ^ 53, (ofNat m).toUnsigned 64 = m := fun m hm => by
    rw [toUnsigned_ofNat hm, min_eq_left (by omega)]
  have hcount := isFinite_ofNat (hlt.trans (by decide) : n - 1 < 2 ^ 64)
  have hunits : units (ofNat (n - 1)).magnitude = (n - 1) * one := units_ofUnits hlt false
  have hplus : (ofNat (n - 1)).negative = false := negative_ofUnits _ _ _
  obtain ⟨-, hneg, hmag⟩ := half_fields_eq (x := ofNat (n - 1)) (fields_of_finite hcount).1
  have hfin := finite_of_low_of_high (low_half (low_of_finite hcount))
    (high_half (high_of_finite hcount))
  have htwice := units_halfMagnitude (of_decide_eq_true hcount) hunits
  rw [← hmag] at htwice
  rw [Experiment.middlePlaces, mul_comm_number]
  generalize ofNat (n - 1) * 0.5 = r at hneg hfin htwice
  have hbelow : units r.magnitude / one = (n - 1) / 2 := by
    rw [← Nat.mul_div_mul_left _ one Nat.two_pos, htwice,
      Nat.mul_div_mul_right _ 2 Binary64.one_pos]
  have hfloor : r.floor = ofNat ((n - 1) / 2) := by
    rw [floor_eq hfin (hneg.trans hplus), hbelow, ofNat]
  have hceil : r.ceil = ofNat (n / 2) := by
    rw [ceil_eq hfin (hneg.trans hplus), half_above Binary64.one_pos two_mul_half_one htwice,
      hhigher, ofNat]
  rw [hfloor, hceil, hindex _ (by omega), hindex _ (by omega)]

variable {a b : Binary64} {m n p q window : Nat}

theorem at_levels {i : Nat} (hi : i < p + q) :
    at_ (List.replicate p a ++ List.replicate q b) i = if i < p then a else b := by
  rw [at_, List.getElem?_append, List.length_replicate]
  split
  next hlt => rw [List.getElem?_replicate, if_pos hlt, Option.getD_some]
  next hge => rw [List.getElem?_replicate, if_pos (by omega), Option.getD_some]

theorem sorted_levels (hab : a.totalRank ≤ b.totalRank) :
    Merging.stableSort totalRank (List.replicate p a ++ List.replicate q b) =
      List.replicate p a ++ List.replicate q b := by
  refine List.Pairwise.insertionSort_eq (List.pairwise_append.mpr ⟨?_, ?_, ?_⟩)
  · exact List.pairwise_replicate.mpr (Or.inr le_rfl)
  · exact List.pairwise_replicate.mpr (Or.inr le_rfl)
  · intro x hx y hy
    rw [List.eq_of_mem_replicate hx, List.eq_of_mem_replicate hy]
    exact hab

/-- Values that are fewer than half do not move the median of the others. -/
theorem median_of_few (hb : Experiment.Halved b) (hq : 0 < q) (hfew : p ≤ (p + q - 1) / 2)
    (hcount : p + q < 2 ^ 53) :
    Stats.median (List.replicate p a ++ List.replicate q b) = some b := by
  have hmiddle : ∀ sorted : List Binary64, sorted.length = p + q →
      (∀ i, (p + q - 1) / 2 ≤ i → i ≤ (p + q) / 2 → at_ sorted i = b) →
      (if (Experiment.middlePlaces (p + q)).1 = (Experiment.middlePlaces (p + q)).2 then
        at_ sorted (Experiment.middlePlaces (p + q)).1
      else middle (at_ sorted (Experiment.middlePlaces (p + q)).1)
        (at_ sorted (Experiment.middlePlaces (p + q)).2)) = b := by
    intro sorted _ hat
    rw [middlePlaces_eq hcount]
    dsimp only
    rw [hat _ le_rfl (by omega), hat _ (by omega) le_rfl, hb.2]
    exact ite_self b
  rcases le_total a.totalRank b.totalRank with hab | hba
  · have hne : List.replicate p a ++ List.replicate q b ≠ [] := by
      rw [← List.length_pos_iff, List.length_append, List.length_replicate, List.length_replicate]
      omega
    rw [Experiment.median_eq hne, sorted_levels hab]
    simp only [List.length_append, List.length_replicate]
    refine congrArg some (hmiddle _ (by simp) fun i hlow hhigh => ?_)
    rw [at_levels (by omega), if_neg (by omega)]
  · have hne : List.replicate q b ++ List.replicate p a ≠ [] := by
      rw [← List.length_pos_iff, List.length_append, List.length_replicate, List.length_replicate]
      omega
    rw [Experiment.median_perm List.perm_append_comm, Experiment.median_eq hne, sorted_levels hba]
    simp only [List.length_append, List.length_replicate, Nat.add_comm q p]
    refine congrArg some (hmiddle _ (by simp [Nat.add_comm]) fun i hlow hhigh => ?_)
    rw [at_levels (by omega), if_pos (by omega)]

/-- A window of a series with two levels has two levels. -/
theorem window_levels {i : Nat} (hfits : i + window ≤ m + n) :
    ((List.replicate m a ++ List.replicate n b).drop i).take window =
      List.replicate (min window (m - i)) a ++
        List.replicate (window - min window (m - i)) b := by
  rw [List.drop_append, List.drop_replicate, List.drop_replicate, List.take_append,
    List.take_replicate, List.take_replicate, List.length_replicate, List.length_replicate]
  congr 2
  omega

/-- Numbers of one magnitude that are not on different sides of zero are the same. -/
theorem eq_of_magnitude {x y : Binary64} (hmag : x.magnitude = y.magnitude)
    (hne : x.magnitude ≠ 0) (hside : 0 ≤ x.rank ∧ 0 ≤ y.rank ∨ x.rank ≤ 0 ∧ y.rank ≤ 0) :
    x = y := by
  refine ext_fields ?_ hmag
  unfold rank at hside
  cases hx : x.negative <;> cases hy : y.negative <;> simp [hx, hy] at hside ⊢ <;> omega

theorem rank_abs (x : Binary64) : x.abs.rank = x.magnitude := by
  rw [rank, negative_abs, if_neg Bool.false_ne_true, magnitude_abs]

theorem abs_le_iff_magnitude {x y : Binary64} (hx : x.isNaN = false) (hy : y.isNaN = false) :
    x.abs ≤ y.abs ↔ x.magnitude ≤ y.magnitude := by
  have hnan : ∀ z : Binary64, z.abs.isNaN = z.isNaN := fun z => by
    rw [isNaN, isNaN, magnitude_abs]
  constructor
  · rintro ⟨-, -, hle⟩
    rw [rank_abs, rank_abs] at hle
    exact Int.ofNat_le.mp hle
  · intro hle
    refine ⟨(hnan x).trans hx, (hnan y).trans hy, ?_⟩
    rw [rank_abs, rank_abs]
    exact Int.ofNat_le.mpr hle

/-- The lower and the higher of two levels. -/
structure LevelRange (a b low high : Binary64) : Prop where
  halvedLow : Experiment.Halved low
  halvedHigh : Experiment.Halved high
  same : low = a ∧ high = b ∨ low = b ∧ high = a
  le : low ≤ high

theorem exists_range (ha : Experiment.Halved a) (hb : Experiment.Halved b) :
    ∃ low high, LevelRange a b low high := by
  obtain ⟨hanan, -⟩ := fields_of_finite ha.1
  obtain ⟨hbnan, -⟩ := fields_of_finite hb.1
  rcases le_total a.rank b.rank with hle | hle
  · exact ⟨a, b, ha, hb, Or.inl ⟨rfl, rfl⟩, hanan, hbnan, hle⟩
  · exact ⟨b, a, hb, ha, Or.inr ⟨rfl, rfl⟩, hbnan, hanan, hle⟩

variable {low high : Binary64}

theorem LevelRange.within (h : LevelRange a b low high) :
    low ≤ a ∧ a ≤ high ∧ low ≤ b ∧ b ≤ high := by
  have hlow := le_of_number (fields_of_finite h.halvedLow.1).1
  have hhigh := le_of_number (fields_of_finite h.halvedHigh.1).1
  have hle := h.le
  rcases h.same with ⟨rfl, rfl⟩ | ⟨rfl, rfl⟩
  · exact ⟨hlow, hle, hle, hhigh⟩
  · exact ⟨hle, hhigh, hlow, hle⟩

/-- The median of values at the levels is between them. -/
theorem LevelRange.median (h : LevelRange a b low high) {values : List Binary64}
    (hne : values ≠ []) (hvalues : ∀ x ∈ values, x = a ∨ x = b) :
    ∃ v, Stats.median values = some v ∧ low ≤ v ∧ v ≤ high := by
  obtain ⟨hlowa, hahigh, hlowb, hbhigh⟩ := h.within
  have hbounds : Experiment.Bounds low high values := by
    intro x hx
    rcases hvalues x hx with rfl | rfl
    · exact ⟨hlowa, hahigh⟩
    · exact ⟨hlowb, hbhigh⟩
  obtain ⟨v, hv, hbetween⟩ :=
    Experiment.mediansHave_binary64 hbounds h.halvedLow h.halvedHigh values hne fun _ hx => hx
  exact ⟨v, Experiment.medianOf_binary64 values ▸ hv, hbetween⟩

/-- No two numbers between the levels differ by more than the levels. -/
theorem LevelRange.sub_le (h : LevelRange a b low high) (hfin : (b - a).isFinite = true)
    {x y : Binary64} (hx : low ≤ x ∧ x ≤ high) (hy : low ≤ y ∧ y ≤ high) :
    (y - x).isNaN = false ∧ (y - x).magnitude ≤ (b - a).magnitude := by
  have hmag : (high - low).magnitude = (b - a).magnitude := by
    rcases h.same with ⟨rfl, rfl⟩ | ⟨rfl, rfl⟩
    · rfl
    · exact (sub_exchange high low).1
  have hswap := (sub_exchange low high).1
  have hgreatest : (high - low).isFinite = true := by
    rw [isFinite, hmag]
    exact hfin
  have hleast : (low - high).isFinite = true := by
    rw [isFinite, hswap, hmag]
    exact hfin
  obtain ⟨hbelow, habove⟩ := Experiment.sub_bounds hx hy hleast hgreatest
  refine ⟨habove.1, ?_⟩
  have hlo := hbelow.2.2
  have hhi := habove.2.2
  rw [← hmag]
  unfold rank at hlo hhi
  split_ifs at hlo hhi <;> omega

theorem magnitude_sub_self (ha : a.isFinite = true) : (a - a).magnitude = 0 := by
  have hle := le_of_number (fields_of_finite ha).1
  have hnonneg := (rank_sub_nonneg hle (low_of_finite ha) (high_of_finite ha)).2
  have hnonpos := (rank_sub_nonpos hle (low_of_finite ha) (high_of_finite ha)).2
  unfold rank at hnonneg hnonpos
  split_ifs at hnonneg hnonpos <;> omega

/-- What is between the levels is on the side of the first level where the second one is. -/
theorem LevelRange.side (h : LevelRange a b low high) {v : Binary64} (hv : low ≤ v ∧ v ≤ high) :
    0 ≤ (v - a).rank ∧ 0 ≤ (b - a).rank ∨ (v - a).rank ≤ 0 ∧ (b - a).rank ≤ 0 := by
  have hfin := finite_between hv.1 hv.2 h.halvedLow.1 h.halvedHigh.1
  have hlow := h.halvedLow.1
  have hhigh := h.halvedHigh.1
  rcases h.same with ⟨rfl, rfl⟩ | ⟨rfl, rfl⟩
  · exact Or.inl ⟨(rank_sub_nonneg hv.1 (low_of_finite hlow) (high_of_finite hfin)).2,
      (rank_sub_nonneg h.le (low_of_finite hlow) (high_of_finite hhigh)).2⟩
  · exact Or.inr ⟨(rank_sub_nonpos hv.2 (low_of_finite hfin) (high_of_finite hhigh)).2,
      (rank_sub_nonpos h.le (low_of_finite hlow) (high_of_finite hhigh)).2⟩

variable {thresholdW : Binary64} {st : StepChange} {i : Nat}

/-- In front of the change the power has the first level. -/
theorem before_levels (ha : Experiment.Halved a) (hwindow : 0 < window) (hlarge : window < 2 ^ 53)
    (hst : stepAt (List.replicate m a ++ List.replicate n b) window thresholdW i = some st)
    (hi : i ≤ m) : st.beforeMedianW = a := by
  obtain ⟨hlow, hfits⟩ := fits_of_stepAt hst
  obtain ⟨hbefore, -, -⟩ := medians_of_stepAt hwindow hst
  rw [List.length_append, List.length_replicate, List.length_replicate] at hfits
  have hall : min window (m - (i - window)) = window := by omega
  rw [windowBefore, window_levels (by omega), hall, Nat.sub_self] at hbefore
  have hmedian := median_of_few (a := b) (p := 0) ha hwindow (Nat.zero_le _) (by omega)
  rw [List.replicate_zero, List.nil_append] at hmedian
  rw [List.replicate_zero, List.append_nil, hmedian] at hbefore
  exact (Option.some.inj hbefore).symm

/-- From half a window before the change on, the power behind has the second level. -/
theorem after_levels (hb : Experiment.Halved b) (hwindow : 0 < window) (hlarge : window < 2 ^ 53)
    (hst : stepAt (List.replicate m a ++ List.replicate n b) window thresholdW i = some st)
    (hi : m ≤ i + (window - 1) / 2) : st.afterMedianW = b := by
  obtain ⟨-, hfits⟩ := fits_of_stepAt hst
  obtain ⟨-, hafter, -⟩ := medians_of_stepAt hwindow hst
  rw [List.length_append, List.length_replicate, List.length_replicate] at hfits
  rw [windowAfter, window_levels (by omega), median_of_few hb (by omega) (by omega) (by omega)]
    at hafter
  exact (Option.some.inj hafter).symm

/-- Earlier than half a window before the change, the power behind has the first level as well. -/
theorem after_levels_early (ha : Experiment.Halved a) (hwindow : 0 < window)
    (hlarge : window < 2 ^ 53)
    (hst : stepAt (List.replicate m a ++ List.replicate n b) window thresholdW i = some st)
    (hi : i + window / 2 < m) : st.afterMedianW = a := by
  obtain ⟨-, hfits⟩ := fits_of_stepAt hst
  obtain ⟨-, hafter, -⟩ := medians_of_stepAt hwindow hst
  rw [List.length_append, List.length_replicate, List.length_replicate] at hfits
  rw [windowAfter, window_levels (by omega), Experiment.median_perm List.perm_append_comm,
    median_of_few ha (by omega) (by omega) (by omega)] at hafter
  exact (Option.some.inj hafter).symm

/-- Both medians are between the levels. -/
theorem LevelRange.medians (h : LevelRange a b low high) (hwindow : 0 < window)
    (hst : stepAt (List.replicate m a ++ List.replicate n b) window thresholdW i = some st) :
    (low ≤ st.beforeMedianW ∧ st.beforeMedianW ≤ high) ∧
      low ≤ st.afterMedianW ∧ st.afterMedianW ≤ high := by
  obtain ⟨-, hfits⟩ := fits_of_stepAt hst
  obtain ⟨hbefore, hafter, -⟩ := medians_of_stepAt hwindow hst
  obtain ⟨hne, hne'⟩ := windows_nonempty hwindow hfits
  have hlevels : ∀ x ∈ List.replicate m a ++ List.replicate n b, x = a ∨ x = b := by
    intro x hx
    rcases List.mem_append.mp hx with hx | hx
    · exact Or.inl (List.eq_of_mem_replicate hx)
    · exact Or.inr (List.eq_of_mem_replicate hx)
  have hwithin : ∀ k, ∀ x ∈ ((List.replicate m a ++ List.replicate n b).drop k).take window,
      x = a ∨ x = b := fun k x hx => hlevels x (List.mem_of_mem_drop (List.mem_of_mem_take hx))
  obtain ⟨v, hv, hbetween⟩ := h.median hne (hwithin _)
  obtain ⟨v', hv', hbetween'⟩ := h.median hne' (hwithin _)
  obtain rfl := Option.some.inj (hv.symm.trans hbefore)
  obtain rfl := Option.some.inj (hv'.symm.trans hafter)
  exact ⟨hbetween, hbetween'⟩

/-- A change from one level to another is found with the whole difference of the levels, at its
place or up to half a window before it. -/
theorem detectStep_of_levels (ha : Experiment.Halved a) (hb : Experiment.Halved b)
    (hwindow : 0 < window) (hlarge : window < 2 ^ 53) (hm : window ≤ m) (hn : window ≤ n)
    (hpos : (0.0 : Binary64) < thresholdW) (hfin : (b - a).isFinite = true)
    (hclears : thresholdW ≤ (b - a).abs) :
    ∃ st, detectStep (List.replicate m a ++ List.replicate n b) window thresholdW = some st ∧
      st.beforeMedianW = a ∧ st.deltaW = b - a ∧
      m ≤ st.index + window / 2 ∧ st.index ≤ max window (m - (window - 1) / 2) := by
  obtain ⟨low, high, h⟩ := exists_range ha hb
  obtain ⟨hspec, hnone⟩ := detectStep_spec (List.replicate m a ++ List.replicate n b) window
    thresholdW
  have hnumber : (b - a).isNaN = false := (fields_of_finite hfin).1
  have hne := magnitude_ne_zero_of_not_lt hpos fun hlt => absurd hlt.2.2 (not_lt.mpr hclears.2.2)
  -- the first place whose window behind has more than half of its values at the second level
  set j := max window (m - (window - 1) / 2) with hj
  have hfits : j + window ≤ (List.replicate m a ++ List.replicate n b).length := by
    rw [List.length_append, List.length_replicate, List.length_replicate]
    omega
  obtain ⟨before, after, -, -, hwhole⟩ :=
    exists_stepAt thresholdW hwindow (le_max_left _ _ : window ≤ j) hfits
  set whole := StepChange.of before after window thresholdW j
  have hdelta : whole.deltaW = b - a := by
    rw [(medians_of_stepAt hwindow hwhole).2.2, before_levels ha hwindow hlarge hwhole (by omega),
      after_levels hb hwindow hlarge hwhole (by omega)]
  cases hfound : detectStep (List.replicate m a ++ List.replicate n b) window thresholdW with
  | none => exact absurd (hdelta ▸ hclears) (hnone.mp hfound hwindow j whole hwhole)
  | some st =>
      obtain ⟨-, hst⟩ := (hspec st).mp hfound
      obtain ⟨hlargest, hfirst⟩ := hst.largest j whole hwhole (hdelta ▸ hclears)
      obtain ⟨-, -, hsub⟩ := medians_of_stepAt hwindow hst.at_
      obtain ⟨hbefore, hafter⟩ := h.medians hwindow hst.at_
      obtain ⟨hstnumber, hmost⟩ := h.sub_le hfin hbefore hafter
      rw [← hsub] at hstnumber hmost
      rw [hdelta] at hlargest hfirst
      have hleast := (abs_le_iff_magnitude hnumber hstnumber).mp hlargest
      have hearly : st.index ≤ j := by
        refine Nat.not_lt.mp fun hlt => ?_
        have hless := (hfirst hlt).2.2
        rw [rank_abs, rank_abs] at hless
        omega
      have hlevel := before_levels ha hwindow hlarge hst.at_ (by omega)
      refine ⟨st, rfl, hlevel, ?_, ?_, hearly⟩
      · refine eq_of_magnitude (le_antisymm hmost hleast) (by omega) ?_
        rw [hsub, hlevel]
        exact h.side hafter
      · refine Nat.not_lt.mp fun hlt => ?_
        have hsame := after_levels_early ha hwindow hlarge hst.at_ hlt
        rw [hsub, hsame, hlevel, magnitude_sub_self ha.1] at hleast
        omega

theorem detectStep_of_levels_sample : ∃ st,
    detectStep (List.replicate 12 5.0 ++ List.replicate 9 8.0) 5 1.0 = some st ∧
      st.deltaW = 8.0 - 5.0 ∧ st.index = 10 := by
  obtain ⟨hfive, hfive', height, height', hpos, hfin, hclears⟩ :
      (5.0 : Binary64).isFinite = true ∧ 2 * 2 ^ 52 ≤ (5.0 : Binary64).magnitude ∧
        (8.0 : Binary64).isFinite = true ∧ 2 * 2 ^ 52 ≤ (8.0 : Binary64).magnitude ∧
        (0.0 : Binary64) < 1.0 ∧ (8.0 - 5.0 : Binary64).isFinite = true ∧
        (1.0 : Binary64) ≤ (8.0 - 5.0 : Binary64).abs := by
    decide +kernel
  obtain ⟨st, hst, -, hdelta, hlow, hhigh⟩ := detectStep_of_levels
    (Experiment.halved_of_large hfive hfive') (Experiment.halved_of_large height height')
    (by decide : 0 < 5) (by decide) (by decide : 5 ≤ 12) (by decide : 5 ≤ 9) hpos hfin hclears
  exact ⟨st, hst, hdelta, le_antisymm hhigh (by omega)⟩

end Levels

end PowerForensics.Analysis
