import PowerForensics.Binary64.Monotone
import PowerForensics.Core.PhasesMirror

/-! # Worse captures

A capture is worse than another one if it differs from it only by what speaks against it: fewer
distinct values, less coverage, more persistence, spread, gaps or breaks of the clock. Whatever
confounds a comparison with the better capture confounds it with the worse one too, so neither
the confidence nor the validity of the comparison gets better.
-/

namespace PowerForensics.Analysis

open Binary64 Analyze

/-! ## The order of captures -/

/-- The second number is the first one or above it. -/
def AtLeast (x y : Binary64) : Prop := y = x ∨ x ≤ y

theorem AtLeast.lt_of_lt {x y bound : Binary64} (h : AtLeast x y) (hlt : y < bound) :
    x < bound := by
  obtain rfl | hle := h
  · exact hlt
  · exact lt_of_le_of_lt_number hle hlt

theorem AtLeast.gt_of_gt {x y bound : Binary64} (h : AtLeast x y) (hlt : bound < x) :
    bound < y := by
  obtain rfl | hle := h
  · exact hlt
  · exact lt_of_lt_of_le_number hlt hle

theorem AtLeast.ge_of_ge {x y bound : Binary64} (h : AtLeast x y) (hle : bound ≤ x) :
    bound ≤ y := by
  obtain rfl | hxy := h
  · exact hle
  · exact le_trans_number hle hxy

theorem AtLeast.max_right {x y : Binary64} (h : AtLeast x y) (z : Binary64) :
    AtLeast (Max.max x z) (Max.max y z) := by
  obtain rfl | hle := h
  · exact Or.inl rfl
  · exact Or.inr (max_le_max_right_number hle z)

theorem AtLeast.min_right {x y : Binary64} (h : AtLeast x y) (z : Binary64) :
    AtLeast (Min.min x z) (Min.min y z) := by
  obtain rfl | hle := h
  · exact Or.inl rfl
  · exact Or.inr (min_le_min_right_number hle z)

/-- The first capture as it would be with worse evidence. -/
structure Worse (a a' : CaptureQuality) : Prop where
  n : a'.n = a.n
  duration : a'.durationSecs = a.durationSecs
  observed : a'.observedHz = a.observedHz
  medianDt : a'.medianDtSecs = a.medianDtSecs
  unobserved : a'.unobservedSecs = a.unobservedSecs
  unique : a'.uniqueValues ≤ a.uniqueValues
  coverage : Option.Rel AtLeast a'.coverage a.coverage
  rho : AtLeast a.rhoLag1 a'.rhoLag1
  spread : AtLeast a.spread a'.spread
  absSpread : AtLeast a.absSpreadW a'.absSpreadW
  maxGap : AtLeast a.maxGapSecs a'.maxGapSecs
  discontinuities : a.discontinuities ≤ a'.discontinuities

def Confidence.rank : Confidence → Nat
  | .low => 0
  | .medium => 1
  | .high => 2

def Validity.rank : Validity → Nat
  | .invalid => 0
  | .questionable => 1
  | .valid => 2

theorem Confidence.downgraded_mono {x y : Confidence} (hle : x.rank ≤ y.rank) :
    x.downgraded.rank ≤ y.downgraded.rank := by
  cases x <;> cases y <;> simp_all [rank, downgraded]

theorem Confidence.downgraded_le (x : Confidence) : x.downgraded.rank ≤ x.rank := by
  cases x <;> decide

/-! ## Independent samples -/

/-- The bounds of the correlation, and what they leave of a sample. -/
theorem rho_bounds : ((-0.9 : Binary64) ≤ 0.99 ∧ (1.0 : Binary64).isFinite = true ∧
    (0.99 : Binary64).isFinite = true ∧ (-0.9 : Binary64).isFinite = true) ∧
    (0.0 : Binary64) < 1.0 - 0.99 ∧ (1.0 - -0.9 : Binary64).isFinite = true ∧
    (0.0 : Binary64) < 1.0 + -0.9 ∧ (1.0 + 0.99 : Binary64).isFinite = true ∧
    (1.0 : Binary64) ≤ ofNat 2 ∧ (0.0 : Binary64) < 1.0 := by
  decide +kernel

/-- The samples that persistence leaves of some number of samples. -/
def persisting (n : Nat) (rho : Binary64) : Binary64 :=
  .ofNat n * (1.0 - rho.clamp (-0.9) 0.99) / (1.0 + rho.clamp (-0.9) 0.99)

/-- A clamped correlation keeps both terms of the quotient finite and positive. -/
theorem rho_terms {rho rho' : Binary64} (hle : rho ≤ rho') :
    ((0.0 : Binary64) < 1.0 - rho'.clamp (-0.9) 0.99 ∧
      (1.0 - rho'.clamp (-0.9) 0.99 : Binary64) ≤ 1.0 - rho.clamp (-0.9) 0.99 ∧
      (1.0 - rho.clamp (-0.9) 0.99 : Binary64).isFinite = true) ∧
    (0.0 : Binary64) < 1.0 + rho.clamp (-0.9) 0.99 ∧
      (1.0 + rho.clamp (-0.9) 0.99 : Binary64) ≤ 1.0 + rho'.clamp (-0.9) 0.99 ∧
      (1.0 + rho'.clamp (-0.9) 0.99 : Binary64).isFinite = true := by
  obtain ⟨⟨hbounds, hone, htop, hbottom⟩, hless, hlessfin, hmore, hmorefin, -⟩ := rho_bounds
  have hclamp := clamp_mono hbounds.1 hbounds.2.1 hle
  obtain ⟨hlow, hhigh⟩ := clamp_bounds hle.1 hbounds
  obtain ⟨hlow', hhigh'⟩ := clamp_bounds hle.2.1 hbounds
  generalize rho.clamp (-0.9) 0.99 = u at hclamp hlow hhigh ⊢
  generalize rho'.clamp (-0.9) 0.99 = v at hclamp hlow' hhigh' ⊢
  have hu := finite_between hlow hhigh hbottom htop
  have hv := finite_between hlow' hhigh' hbottom htop
  have hsub := sub_le_sub_left_number hone hu hv hclamp
  have hadd := add_le_add_left_number hone hu hv hclamp
  have hsublow := lt_of_lt_of_le_number hless (sub_le_sub_left_number hone hv htop hhigh')
  have haddlow := lt_of_lt_of_le_number hmore (add_le_add_left_number hone hbottom hu hlow)
  have hsubhigh := sub_le_sub_left_number hone hbottom hu hlow
  have haddhigh := add_le_add_left_number hone hv htop hhigh'
  refine ⟨⟨hsublow, hsub, ?_⟩, haddlow, hadd, ?_⟩
  · exact finite_of_le (plus_of_lt (lt_of_lt_of_le_number hsublow hsub)) hsubhigh hlessfin
  · exact finite_of_le (plus_of_lt (lt_of_lt_of_le_number haddlow hadd)) haddhigh hmorefin

theorem persisting_antitone (n : Nat) {rho rho' : Binary64} (hle : rho ≤ rho') :
    persisting n rho' ≤ persisting n rho := by
  obtain ⟨⟨hpos, hless, hlessfin⟩, hpos', hmore, hmorefin⟩ := rho_terms hle
  have hn : Plus (.ofNat n) := plus_ofUnits _ _
  obtain ⟨hplus, hmul⟩ := mul_le_mul_left_number hn hpos hlessfin hless
  obtain ⟨hplus', -⟩ := mul_le_mul_left_number hn (lt_of_lt_of_le_number hpos hless) hlessfin
    (le_of_number (lt_of_lt_of_le_number hpos hless).2.1)
  exact (div_le_div_number hplus hplus' hmul hpos' hmorefin hmore).2

theorem atLeast_persisting (n : Nat) {rho rho' : Binary64} (h : AtLeast rho rho') :
    AtLeast (persisting n rho') (persisting n rho) := by
  obtain rfl | hle := h
  · exact Or.inl rfl
  · exact Or.inr (persisting_antitone n hle)

/-- What persistence leaves, limited by the distinct values and by the samples. -/
def limited (n unique : Nat) (raw : Binary64) : Binary64 :=
  Min.min (Min.min raw (.ofNat unique)) (.ofNat n)

theorem effectiveN_eq {n : Nat} (hn : ¬n < 2) (unique : Nat) (rho : Binary64) :
    effectiveN n unique rho =
      (((limited n unique (persisting n rho)).clamp 1.0 (.ofNat n)).round).toUnsigned 64 := by
  rw [effectiveN, if_neg hn]
  rfl

theorem isNaN_limited (n unique : Nat) (raw : Binary64) : (limited n unique raw).isNaN = false := by
  have hnumber : ∀ m : Nat, (Binary64.ofNat m).isNaN = false := fun m => isNaN_ofUnits _ _ _
  have hinner : (Min.min raw (.ofNat unique)).isNaN = false := by
    rw [min_eq]
    cases hraw : raw.isNaN <;> simp only [hnumber, Bool.false_eq_true, if_false, if_true]
    split
    · exact hnumber unique
    · exact hraw
  rw [limited, min_eq, hinner, hnumber, if_neg Bool.false_ne_true, if_neg Bool.false_ne_true]
  split
  · exact hnumber n
  · exact hinner

theorem atLeast_limited (n : Nat) {unique unique' : Nat} (hle : unique' ≤ unique)
    {raw raw' : Binary64} (h : AtLeast raw' raw) :
    AtLeast (limited n unique' raw') (limited n unique raw) := by
  have hunique : AtLeast (Min.min raw' (.ofNat unique')) (Min.min raw' (.ofNat unique)) :=
    Or.inr (min_le_min_left_number (ofNat_mono hle) raw')
  have hraw := h.min_right (.ofNat unique)
  have hinner : AtLeast (Min.min raw' (.ofNat unique')) (Min.min raw (.ofNat unique)) := by
    obtain heq | hle := hraw
    · rw [heq]
      exact hunique
    · obtain heq' | hle' := hunique
      · rw [heq'] at hle
        exact Or.inr hle
      · exact Or.inr (le_trans_number hle' hle)
  exact hinner.min_right (.ofNat n)

/-- Fewer distinct values and more persistence leave fewer independent samples. -/
theorem effectiveN_mono (n : Nat) {unique unique' : Nat} (hle : unique' ≤ unique)
    {rho rho' : Binary64} (hrho : AtLeast rho rho') :
    effectiveN n unique' rho' ≤ effectiveN n unique rho := by
  by_cases hn : n < 2
  · rw [effectiveN, effectiveN, if_pos hn, if_pos hn]
  · obtain ⟨-, -, -, -, -, htwo, hzero⟩ := rho_bounds
    have hsamples : (1.0 : Binary64) ≤ .ofNat n :=
      le_trans_number htwo (ofNat_mono (Nat.not_lt.mp hn))
    have hlimited := atLeast_limited n hle (atLeast_persisting n hrho)
    have hnumber := isNaN_limited n unique' (persisting n rho')
    have hle' : limited n unique' (persisting n rho') ≤ limited n unique (persisting n rho) := by
      obtain heq | hle := hlimited
      · rw [heq]
        exact le_of_number hnumber
      · exact hle
    have hclamp := clamp_mono hsamples.1 hsamples.2.1 hle'
    have hlow := (clamp_bounds hnumber hsamples).1
    have hplus := plus_of_lt_of_le hzero hlow
    have hplus' := plus_of_lt_of_le (lt_of_lt_of_le_number hzero hlow) hclamp
    obtain ⟨hround, hrounds⟩ := round_mono hplus hclamp hplus'
    rw [effectiveN_eq hn, effectiveN_eq hn]
    exact toUnsigned_mono hround hrounds
      (round_mono hplus' (le_of_number hplus'.1) hplus').1 64

/-! ## Confounders -/

section Captures

variable {a a' : CaptureQuality} (h : Worse a a')

include h

theorem Worse.effectiveN : a'.effectiveN ≤ a.effectiveN := by
  rw [CaptureQuality.effectiveN, CaptureQuality.effectiveN, h.n]
  exact effectiveN_mono a.n h.unique h.rho

theorem Worse.freshnessShortfall {side : String} (hfresh : freshnessShortfall a' side = none) :
    freshnessShortfall a side = none := by
  unfold Analysis.freshnessShortfall at hfresh ⊢
  rw [h.observed, h.duration] at hfresh
  cases hhz : a.observedHz with
  | none => rfl
  | some hz =>
      simp only [hhz] at hfresh ⊢
      split at hfresh
      next hidle => rw [if_pos hidle]
      next hidle =>
        rw [if_neg hidle]
        split at hfresh
        · cases hfresh
        · next henough =>
          refine if_neg fun hfew => henough ?_
          exact lt_of_le_of_lt_number (ofNat_mono h.unique) hfew

theorem Worse.sideConfounders {side : String} (hnone : sideConfounders a' side = []) :
    sideConfounders a side = [] := by
  simp only [Analysis.sideConfounders, List.append_eq_nil_iff, Option.toList_eq_nil_iff,
    ite_eq_right_iff, List.cons_ne_nil, imp_false] at hnone ⊢
  obtain ⟨⟨hgap, hfresh⟩, hclock⟩ := hnone
  rw [h.medianDt] at hgap
  refine ⟨⟨fun hwide => hgap ⟨hwide.1, h.maxGap.gt_of_gt hwide.2⟩, h.freshnessShortfall hfresh⟩, ?_⟩
  have hmore := h.discontinuities
  omega

theorem Worse.thinCapture (b : CaptureQuality) (duration : Binary64)
    (hnone : thinCapture a' b duration (Min.min a'.effectiveN b.effectiveN) = []) :
    thinCapture a b duration (Min.min a.effectiveN b.effectiveN) = [] := by
  simp only [Analysis.thinCapture, List.append_eq_nil_iff, ite_eq_right_iff, List.cons_ne_nil,
    imp_false] at hnone ⊢
  have hfewer := h.effectiveN
  refine ⟨hnone.1, ?_⟩
  omega

omit h in
/-- A filter that takes the better of two values takes the worse one too. -/
theorem filter_nil_of_rel {R : Binary64 → Binary64 → Prop} {x x' : Option Binary64}
    (hrel : Option.Rel R x' x) {p q : Binary64 → Bool}
    (hp : ∀ c' c, R c' c → q c = true → p c' = true) (f g : Binary64 → String)
    (hnone : (x'.filter p).toList.map f = []) : (x.filter q).toList.map g = [] := by
  cases hrel with
  | none => rfl
  | @some c' c hc =>
      cases hq : q c with
      | false => simp [Option.filter, hq]
      | true => simp [Option.filter, hp c' c hc hq] at hnone

omit h in
theorem smallerOf_mono {x x' : Option Binary64} (hrel : Option.Rel AtLeast x' x)
    (y : Option Binary64) : Option.Rel AtLeast (smallerOf x' y) (smallerOf x y) := by
  cases hrel with
  | none => exact .none
  | some hc =>
      cases y with
      | none => exact .none
      | some d => exact .some (hc.min_right d)

theorem Worse.jointConfounders (b : CaptureQuality) (effect cpu : Option Binary64)
    (hnone : jointConfounders (Max.max a'.spread b.spread) (smallerOf a'.coverage b.coverage)
      effect cpu (Max.max a'.absSpreadW b.absSpreadW) = []) :
    jointConfounders (Max.max a.spread b.spread) (smallerOf a.coverage b.coverage)
      effect cpu (Max.max a.absSpreadW b.absSpreadW) = [] := by
  have hspread := h.spread.max_right b.spread
  have hnoise := h.absSpread.max_right b.absSpreadW
  have hcoverage := smallerOf_mono h.coverage b.coverage
  simp only [Analysis.jointConfounders, List.append_eq_nil_iff, ite_eq_right_iff,
    List.cons_ne_nil, imp_false] at hnone ⊢
  obtain ⟨⟨⟨hstable, hcovered⟩, hquiet⟩, hlarge⟩ := hnone
  refine ⟨⟨⟨fun hwide => hstable (hspread.ge_of_ge hwide), ?_⟩, hquiet⟩, ?_⟩
  · refine filter_nil_of_rel hcoverage (fun c' c hc hlow => ?_) _ _ hcovered
    exact decide_eq_true (hc.lt_of_lt (of_decide_eq_true hlow))
  · refine filter_nil_of_rel (R := fun e' e => e' = e) ?_ (fun e' e heq hsmall => ?_) _ _ hlarge
    · cases effect with
      | none => exact .none
      | some e => exact .some rfl
    · rw [heq]
      exact decide_eq_true (hnoise.gt_of_gt (of_decide_eq_true hsmall))

/-- What confounds a comparison with the better capture confounds it with the worse one. -/
theorem Worse.confounders (b : CaptureQuality) (effect cpu : Option Binary64)
    (hnone : (abConfidence a' b effect cpu).confounders = []) :
    (abConfidence a b effect cpu).confounders = [] := by
  simp only [abConfidence, List.append_eq_nil_iff] at hnone ⊢
  rw [h.duration] at hnone
  obtain ⟨⟨hthin, hside, hside'⟩, hjoint⟩ := hnone
  exact ⟨⟨h.thinCapture b _ hthin, h.sideConfounders hside, hside'⟩,
    h.jointConfounders b effect cpu hjoint⟩

/-! ## Confidence -/

omit h in
theorem all_of_atLeast {x x' : Option Binary64} (hrel : Option.Rel AtLeast x' x) {bound : Binary64}
    (hall : x'.all (fun c => bound ≤ c) = true) : x.all (fun c => bound ≤ c) = true := by
  cases hrel with
  | none => rfl
  | some hc => exact decide_eq_true (hc.ge_of_ge (of_decide_eq_true hall))

omit h in
theorem any_of_atLeast {x x' : Option Binary64} (hrel : Option.Rel AtLeast x' x) {bound : Binary64}
    (hany : x.any (fun c => c < bound) = true) : x'.any (fun c => c < bound) = true := by
  cases hrel with
  | none => cases hany
  | some hc => exact decide_eq_true (hc.lt_of_lt (of_decide_eq_true hany))

omit h in
theorem baseConfidence_mono {duration spread spread' : Binary64}
    {coverage coverage' : Option Binary64}
    {effN effN' : Nat} (heff : effN' ≤ effN) (hspread : AtLeast spread spread')
    (hcoverage : Option.Rel AtLeast coverage' coverage) :
    (baseConfidence duration effN' spread' coverage').rank ≤
      (baseConfidence duration effN spread coverage).rank := by
  unfold baseConfidence
  split
  next hhigh =>
    obtain ⟨hlong, hmany, hsteady, hcovered⟩ := hhigh
    rw [if_pos ⟨hlong, hmany.trans heff, hspread.lt_of_lt hsteady,
      all_of_atLeast hcoverage hcovered⟩]
  next =>
    split
    next hmedium =>
      obtain ⟨hlong, hmany, hsteady, hcovered⟩ := hmedium
      split
      · decide
      · rw [if_pos ⟨hlong, hmany.trans heff, hspread.lt_of_lt hsteady,
          all_of_atLeast hcoverage hcovered⟩]
    next => exact Nat.zero_le _

theorem Worse.jointBase (b : CaptureQuality) : (jointBase a' b).rank ≤ (jointBase a b).rank := by
  rw [Analysis.jointBase, Analysis.jointBase, h.duration]
  refine baseConfidence_mono ?_ (h.spread.max_right b.spread)
    (smallerOf_mono h.coverage b.coverage)
  exact min_le_min_right _ h.effectiveN

theorem Worse.level (b : CaptureQuality) (effect cpu : Option Binary64) :
    (abConfidence a' b effect cpu).level.rank ≤ (abConfidence a b effect cpu).level.rank := by
  have hbase := h.jointBase b
  have hconfounders := h.confounders b effect cpu
  rw [level_eq, level_eq]
  split
  next hnone =>
    rw [if_pos (hconfounders hnone)]
    exact hbase
  next =>
    have hdown := Confidence.downgraded_mono hbase
    split
    · exact hdown.trans (Confidence.downgraded_le _)
    · exact hdown

theorem Worse.comparisonValidity (b : CaptureQuality) (medA medB : Option Binary64)
    {cs cs' : List String} (hcs : cs' = [] → cs = []) {level level' : Confidence}
    (hlevel : level'.rank ≤ level.rank) :
    (comparisonValidity medA medB a' b cs' level').rank ≤
      (comparisonValidity medA medB a b cs level).rank := by
  unfold Analysis.comparisonValidity
  split
  next => exact Nat.zero_le _
  next hsound =>
    have hthick : ¬(medA = none ∨ medB = none ∨ a.coverage.any (· < (0.5 : Binary64)) ∨
        b.coverage.any (· < (0.5 : Binary64)) ∨
        Min.min a.durationSecs b.durationSecs < (5.0 : Binary64)) := by
      intro hthin
      apply hsound
      rw [h.duration]
      exact hthin.imp_right (Or.imp_right (Or.imp_left (any_of_atLeast h.coverage)))
    rw [if_neg hthick]
    split
    next =>
      split <;> decide
    next hclear =>
      have hempty : cs = [] := hcs (by_contra fun hne => hclear (Or.inl hne))
      have hhigher : level ≠ .low := by
        rintro rfl
        refine hclear (Or.inr ?_)
        cases level' <;> simp_all [Confidence.rank]
      rw [if_neg (by simp [hempty, hhigher])]

end Captures

/-- Worse evidence never looks better: neither in the confidence of a comparison nor in its
validity, whatever else confounds it. -/
theorem abConfidence_worse (a a' b : CaptureQuality) (h : Worse a a')
    (effect cpu medA medB : Option Binary64) (others : List String) :
    (abConfidence a' b effect cpu).level.rank ≤ (abConfidence a b effect cpu).level.rank ∧
      (comparisonValidity medA medB a' b ((abConfidence a' b effect cpu).confounders ++ others)
          (abConfidence a' b effect cpu).level).rank ≤
        (comparisonValidity medA medB a b ((abConfidence a b effect cpu).confounders ++ others)
          (abConfidence a b effect cpu).level).rank := by
  have hlevel := h.level b effect cpu
  refine ⟨hlevel, h.comparisonValidity b medA medB (fun hnone => ?_) hlevel⟩
  obtain ⟨hown, hothers⟩ := List.append_eq_nil_iff.mp hnone
  exact List.append_eq_nil_iff.mpr ⟨h.confounders b effect cpu hown, hothers⟩

def steadyCapture : CaptureQuality :=
  { n := 100, durationSecs := 90.0, uniqueValues := 60, spread := 0.1, absSpreadW := 0.5,
    maxGapSecs := 1.0, coverage := some 0.95, rhoLag1 := 0.2, observedHz := some 1.0,
    medianDtSecs := 1.0, discontinuities := 0, unobservedSecs := 0.0 }

def shakyCapture : CaptureQuality :=
  { steadyCapture with
    uniqueValues := 8, spread := 0.7, absSpreadW := 2.0, maxGapSecs := 9.0, coverage := some 0.6
    rhoLag1 := 0.8, discontinuities := 1 }

theorem shakyCapture_worse : Worse steadyCapture shakyCapture := by
  have hvalues : (0.6 : Binary64) ≤ 0.95 ∧ (0.2 : Binary64) ≤ 0.8 ∧ (0.1 : Binary64) ≤ 0.7 ∧
      (0.5 : Binary64) ≤ 2.0 ∧ (1.0 : Binary64) ≤ 9.0 := by decide +kernel
  obtain ⟨hcoverage, hrho, hspread, hnoise, hgap⟩ := hvalues
  exact ⟨rfl, rfl, rfl, rfl, rfl, by decide, .some (Or.inr hcoverage), Or.inr hrho,
    Or.inr hspread, Or.inr hnoise, Or.inr hgap, by decide⟩

theorem shakyCapture_level :
    (abConfidence shakyCapture steadyCapture (some 1.0) none).level.rank ≤
      (abConfidence steadyCapture steadyCapture (some 1.0) none).level.rank ∧
    (comparisonValidity (some 5.0) (some 6.0) shakyCapture steadyCapture
        ((abConfidence shakyCapture steadyCapture (some 1.0) none).confounders ++ [])
        (abConfidence shakyCapture steadyCapture (some 1.0) none).level).rank ≤
      (comparisonValidity (some 5.0) (some 6.0) steadyCapture steadyCapture
        ((abConfidence steadyCapture steadyCapture (some 1.0) none).confounders ++ [])
        (abConfidence steadyCapture steadyCapture (some 1.0) none).level).rank :=
  abConfidence_worse _ _ _ shakyCapture_worse _ _ _ _ _

end PowerForensics.Analysis
