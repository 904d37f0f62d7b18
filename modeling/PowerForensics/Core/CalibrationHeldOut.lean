import Mathlib.Data.List.Forall2
import PowerForensics.Core.Calibration

/-! # Held-out points

The split is by position, but a point is known as held out by its value, and a line through the
other points may not exist. The points that are marked as held out took no part in the line they
are tested against if no other point has the value of one, and the levels of the others spread.
-/

namespace PowerForensics.Calibration

open Merging

/-! ## Positions -/

section Positions

variable {α β : Type}

/-- The elements taken out and the others are all there are. -/
theorem takeOut_perm (k i : Nat) (l : List α) :
    ((takeOut k i l).1 ++ (takeOut k i l).2).Perm l := by
  induction l generalizing i with
  | nil => rfl
  | cons a l ih =>
      unfold takeOut
      dsimp only
      split
      · exact List.perm_middle.trans ((ih (i + 1)).cons a)
      · exact (ih (i + 1)).cons a

/-- What is taken out depends on the positions only. -/
theorem takeOut_forall₂ {R : α → β → Prop} (k i : Nat) {l : List α} {l' : List β}
    (h : List.Forall₂ R l l') :
    List.Forall₂ R (takeOut k i l).1 (takeOut k i l').1 ∧
      List.Forall₂ R (takeOut k i l).2 (takeOut k i l').2 := by
  induction h generalizing i with
  | nil => exact ⟨.nil, .nil⟩
  | cons hab _ ih =>
      obtain ⟨htrain, hval⟩ := ih (i + 1)
      unfold takeOut
      dsimp only
      split
      · exact ⟨htrain, .cons hab hval⟩
      · exact ⟨.cons hab htrain, hval⟩

/-- Every element has a partner. -/
theorem exists_of_forall₂ {R : α → β → Prop} {l : List α} {l' : List β} (h : List.Forall₂ R l l')
    {a : α} (ha : a ∈ l) : ∃ b ∈ l', R a b := by
  induction h with
  | nil => cases ha
  | cons hab _ ih =>
      obtain rfl | ha := List.mem_cons.1 ha
      · exact ⟨_, List.mem_cons_self, hab⟩
      · obtain ⟨b, hb, hR⟩ := ih ha
        exact ⟨b, List.mem_cons_of_mem _ hb, hR⟩

variable {κ : Type} [LinearOrder κ] {key : α → κ} {key' : β → κ} {R : α → β → Prop}

theorem orderedInsert_forall₂ (hkey : ∀ a b, R a b → key a = key' b) {a : α} {b : β}
    (hab : R a b) {l : List α} {l' : List β} (h : List.Forall₂ R l l') :
    List.Forall₂ R (l.orderedInsert (fun x y => key x ≤ key y) a)
      (l'.orderedInsert (fun x y => key' x ≤ key' y) b) := by
  induction h with
  | nil => exact .cons hab .nil
  | cons hcd hrest ih =>
      rw [List.orderedInsert_cons, List.orderedInsert_cons, hkey _ _ hab, hkey _ _ hcd]
      split
      · exact .cons hab (.cons hcd hrest)
      · exact .cons hcd ih

/-- Elements with the same keys are sorted alike. -/
theorem stableSort_forall₂ (hkey : ∀ a b, R a b → key a = key' b) {l : List α} {l' : List β}
    (h : List.Forall₂ R l l') : List.Forall₂ R (stableSort key l) (stableSort key' l') := by
  induction h with
  | nil => exact .nil
  | cons hab _ ih => exact orderedInsert_forall₂ hkey hab ih

end Positions

/-! ## Lines -/

/-- A line exists or not by the levels alone. -/
theorem fitLinear_isSome (points : List Point) :
    (fitLinear points).isSome ↔
      2 ≤ points.length ∧ ¬ (spread (levels points)).abs < epsilon := by
  unfold fitLinear
  dsimp only
  split
  next hlen => exact iff_of_false nofun fun h => by omega
  next hlen =>
    split
    next hspread => exact iff_of_false nofun fun h => h.2 hspread
    next hspread => exact iff_of_true rfl ⟨by omega, hspread⟩

theorem fitLinear_isSome_congr {points points' : List Point}
    (hlevels : levels points = levels points') :
    (fitLinear points).isSome = (fitLinear points').isSome := by
  have hlen : points.length = points'.length := by
    have hlengths := congrArg List.length hlevels
    rwa [levels, levels, List.length_map, List.length_map] at hlengths
  rw [Bool.eq_iff_iff, fitLinear_isSome, fitLinear_isSome, hlevels, hlen]

/-- A reference that is not a number takes part in every prediction. -/
theorem predict_of_nan {points : List Point} {fit : LinearFit} (hfit : fitLinear points = some fit)
    {p : Point} (hp : p ∈ points) (hnan : p.2.isNaN) (x : Binary64) :
    predict fit x = Binary64.nan := by
  have hsum : Binary64.sum (references points) = Binary64.nan :=
    Binary64.sum_of_nan (List.mem_map_of_mem hp) hnan
  unfold fitLinear at hfit
  dsimp only at hfit
  rw [hsum] at hfit
  split at hfit
  · cases hfit
  split at hfit
  · cases hfit
  obtain rfl := Option.some.inj hfit
  have hnan' := Binary64.isNaN_nan
  unfold predict
  dsimp only
  refine Binary64.add_of_nan (Or.inl ?_)
  rw [Binary64.sub_of_nan (Or.inl hnan'), Binary64.div_of_nan (Or.inl hnan')]
  exact hnan'

/-! ## Outcomes -/

def training (points : List Point) : List Point := (holdOut (byLevel points)).1

def validation (points : List Point) : List Point := (holdOut (byLevel points)).2

/-- A point whose residual is marked as held out. -/
def Marked (points : List Point) (p : Point) : Prop := isHeldOut (validation points) p = true

instance decidableMarked (points : List Point) (p : Point) : Decidable (Marked points p) :=
  inferInstanceAs (Decidable (_ = _))

/-- The line that the residuals of some points are taken from. -/
def testLine (points : List Point) (fitAll : LinearFit) : LinearFit :=
  trainFit (training points) (validation points) fitAll

/-- Predictions and references of the residuals that are marked. -/
def markedErrors (residuals : List Residual) : List (Binary64 × Binary64) :=
  (residuals.filter (·.heldOut)).map fun r => (r.predicted, r.reference)

theorem fitDisplayCalibration_ok {points : List Point} {out : FitOutcome}
    (hout : fitDisplayCalibration points = some out) :
    ∃ fitAll, 2 ≤ points.length ∧ fitLinear (byLevel points) = some fitAll ∧
      out.residuals = (byLevel points).map
        (residual (testLine points fitAll) (validation points)) ∧
      out.n = (byLevel points).length ∧ out.trainN = (training points).length ∧
      out.validationN = (validation points).length ∧
      out.validation = if markedErrors out.residuals = [] then none
        else some (validationStats (markedErrors out.residuals) out.validationN) := by
  unfold fitDisplayCalibration at hout
  dsimp only at hout
  split at hout
  · cases hout
  next hlen =>
    split at hout
    · cases hout
    next fitAll hall =>
      obtain rfl := Option.some.inj hout
      refine ⟨fitAll, by omega, hall, rfl, rfl, rfl, rfl, ?_⟩
      have herrors : ∀ (fit : LinearFit) (val sorted : List Point),
          markedErrors (sorted.map (residual fit val)) =
            (sorted.filter (isHeldOut val)).map fun p => (predict fit p.1, p.2) := by
        intro fit val sorted
        rw [markedErrors, List.filter_map, List.map_map]
        rfl
      rw [herrors]

/-- With a line through all points and as many points as that takes, there is an outcome. -/
theorem fitDisplayCalibration_isSome {points : List Point} (hlen : 2 ≤ points.length)
    (hall : (fitLinear (byLevel points)).isSome) :
    ∃ out, fitDisplayCalibration points = some out := by
  obtain ⟨fitAll, hall⟩ := Option.isSome_iff_exists.1 hall
  unfold fitDisplayCalibration
  dsimp only
  rw [if_neg (by omega), hall]
  exact ⟨_, rfl⟩

/-- Where something is marked, points have been taken out. -/
theorem holdOut_of_validation {sorted : List Point} (h : (holdOut sorted).2 ≠ []) :
    holdOut sorted = takeOut holdOutEvery 0 sorted := by
  unfold holdOut at h ⊢
  dsimp only at h ⊢
  split
  next hlen =>
    rw [if_pos hlen] at h
    split
    next hfew => exact absurd (if_pos hfew ▸ rfl) h
    next => rfl
  next hlen =>
    rw [if_neg hlen] at h
    exact absurd rfl h

theorem holdOut_perm (sorted : List Point) :
    ((holdOut sorted).1 ++ (holdOut sorted).2).Perm sorted := by
  by_cases h : (holdOut sorted).2 = []
  · unfold holdOut at h ⊢
    dsimp only at h ⊢
    split
    next hlen =>
      rw [if_pos hlen] at h
      split
      next => simp
      next hmany =>
        rw [if_neg hmany] at h
        exact absurd (Or.inr h) hmany
    next => simp
  · rw [holdOut_of_validation h]
    exact takeOut_perm _ _ _

/-! ## Marks -/

def HasNaN (p : Point) : Bool := p.1.isNaN || p.2.isNaN

theorem equals_self (x : Binary64) : x.equals x = !x.isNaN := by
  simp [Binary64.equals]

theorem not_isHeldOut_of_nan {val : List Point} {p : Point} (hnan : HasNaN p = true) :
    isHeldOut val p = false := by
  refine List.any_eq_false.2 fun v _ => ?_
  rcases Bool.or_eq_true_iff.1 hnan with h | h <;> simp [Binary64.equals, h]

/-- Of the points taken out those are marked that have no part that is not a number. -/
theorem isHeldOut_of_mem {val : List Point} {p : Point} (hp : p ∈ val) :
    isHeldOut val p = !HasNaN p := by
  cases hnan : HasNaN p with
  | true => exact not_isHeldOut_of_nan hnan
  | false =>
      obtain ⟨h1, h2⟩ := Bool.or_eq_false_iff.1 hnan
      exact List.any_eq_true.2 ⟨p, hp, by simp [equals_self, h1, h2]⟩

/-- There are as many marks as points taken out if as many of the others are marked as of them
are not. -/
theorem countP_marked (points : List Point) :
    (byLevel points).countP (isHeldOut (validation points)) = (validation points).length ↔
      (training points).countP (isHeldOut (validation points)) =
        (validation points).countP HasNaN := by
  have hperm := holdOut_perm (byLevel points)
  have hval : (validation points).countP (isHeldOut (validation points)) =
      (validation points).countP fun p => !HasNaN p :=
    List.countP_congr fun p hp => by rw [isHeldOut_of_mem hp]
  have hsplit := List.length_eq_countP_add_countP HasNaN (l := validation points)
  have hcount := hperm.countP_eq (isHeldOut (validation points))
  rw [List.countP_append] at hcount
  change (training points).countP _ + (validation points).countP _ = _ at hcount
  have hnot : (validation points).countP (fun p => decide ¬ HasNaN p = true) =
      (validation points).countP fun p => !HasNaN p :=
    List.countP_congr fun p _ => by simp
  omega

/-! ## Changed references -/

/-- The points that are held out, and the others, depend on the positions only. -/
theorem holdOut_forall₂ {R : Point → Point → Prop} {sorted sorted' : List Point}
    (h : List.Forall₂ R sorted sorted') :
    List.Forall₂ R (holdOut sorted).1 (holdOut sorted').1 ∧
      List.Forall₂ R (holdOut sorted).2 (holdOut sorted').2 := by
  obtain ⟨htrain, hval⟩ := takeOut_forall₂ holdOutEvery 0 h
  have hnil : (takeOut holdOutEvery 0 sorted).2 = [] ↔ (takeOut holdOutEvery 0 sorted').2 = [] := by
    rw [← List.length_eq_zero_iff, hval.length_eq, List.length_eq_zero_iff]
  unfold holdOut
  dsimp only
  simp only [h.length_eq, htrain.length_eq, hnil]
  split
  next =>
    split
    next => exact ⟨h, .nil⟩
    next => exact ⟨htrain, hval⟩
  next => exact ⟨h, .nil⟩

section

variable {R : Point → Point → Prop} (hlevel : ∀ p p', R p p' → p'.1 = p.1)
  {points points' : List Point} (h : List.Forall₂ R points points')

include hlevel

theorem levels_forall₂ (h : List.Forall₂ R points points') : levels points = levels points' := by
  induction h with
  | nil => rfl
  | cons hp _ ih => exact congrArg₂ List.cons (hlevel _ _ hp).symm ih

include h

theorem byLevel_forall₂ : List.Forall₂ R (byLevel points) (byLevel points') :=
  stableSort_forall₂ (fun p p' hp => by rw [hlevel p p' hp]) h

theorem training_forall₂ : List.Forall₂ R (training points) (training points') :=
  (holdOut_forall₂ (byLevel_forall₂ hlevel h)).1

theorem validation_forall₂ : List.Forall₂ R (validation points) (validation points') :=
  (holdOut_forall₂ (byLevel_forall₂ hlevel h)).2

/-- With other references there is an outcome all the same. -/
theorem outcome_forall₂ (hlen : 2 ≤ points.length) (hall : (fitLinear (byLevel points)).isSome) :
    ∃ out', fitDisplayCalibration points' = some out' := by
  refine fitDisplayCalibration_isSome (h.length_eq ▸ hlen) ?_
  rwa [← fitLinear_isSome_congr (levels_forall₂ hlevel (byLevel_forall₂ hlevel h))]

end

/-- The points with other references at those that are marked. -/
def Changed (points points' : List Point) : Prop :=
  List.Forall₂ (fun p p' => p'.1 = p.1 ∧ (p'.2 = p.2 ∨ Marked points p)) points points'

theorem Changed.refl (points : List Point) : Changed points points :=
  List.forall₂_same.2 fun _ _ => ⟨rfl, Or.inl rfl⟩

/-- With other references at the marked points something is held out all the same. -/
theorem Changed.validation_ne_nil {points points' : List Point} (h : Changed points points')
    (hval : validation points ≠ []) : validation points' ≠ [] := by
  have hlen := (validation_forall₂ (fun _ _ hp => hp.1) h).length_eq
  intro hnil
  rw [hnil, List.length_nil, List.length_eq_zero_iff] at hlen
  exact hval hlen

/-- The points of the line that is tested. -/
def lineSource (points : List Point) : List Point :=
  if (fitLinear (training points)).isSome then training points else byLevel points

theorem fitLinear_lineSource {points : List Point} {fitAll : LinearFit}
    (hall : fitLinear (byLevel points) = some fitAll) (hval : validation points ≠ []) :
    fitLinear (lineSource points) = some (testLine points fitAll) := by
  unfold lineSource testLine trainFit
  rw [if_neg hval]
  cases htrain : fitLinear (training points) with
  | some fit => simp [htrain]
  | none => simp [hall]

/-! ## Independence -/

/-- No marked point took part in the line. -/
def TookNoPart (points : List Point) : Prop :=
  (fitLinear (training points)).isSome ∧ ∀ p ∈ training points, ¬ Marked points p

/-- A line that no marked point took part in is the same with other references. -/
theorem TookNoPart.testLine_eq {points points' : List Point} (h : TookNoPart points)
    (hchanged : Changed points points') (hval : validation points ≠ [])
    (fitAll fitAll' : LinearFit) :
    testLine points' fitAll' = testLine points fitAll := by
  have hlevel : ∀ p p' : Point, p'.1 = p.1 ∧ (p'.2 = p.2 ∨ Marked points p) → p'.1 = p.1 :=
    fun _ _ hp => hp.1
  have hsame : training points' = training points := by
    have hrel := training_forall₂ hlevel hchanged
    have hmem := h.2
    generalize training points = train at hrel hmem
    generalize training points' = train' at hrel
    induction hrel with
    | nil => rfl
    | cons hp _ ih =>
        obtain ⟨hfirst, hrest⟩ := List.forall_mem_cons.1 hmem
        exact congrArg₂ List.cons (Prod.ext hp.1 (hp.2.resolve_right hfirst)) (ih hrest)
  have hval' := hchanged.validation_ne_nil hval
  obtain ⟨fit, hfit⟩ := Option.isSome_iff_exists.1 h.1
  simp [testLine, trainFit, hval, hval', hsame, hfit]

/-- The points with references at the marked ones that are no numbers. -/
def erased (points : List Point) (p : Point) : Point :=
  if Marked points p then (p.1, Binary64.nan) else p

theorem fst_erased (points : List Point) (p : Point) : (erased points p).1 = p.1 := by
  unfold erased
  split <;> rfl

theorem changed_erased (points : List Point) : Changed points (points.map (erased points)) := by
  refine List.forall₂_map_right_iff.2 (List.forall₂_same.2 fun p _ => ⟨fst_erased points p, ?_⟩)
  unfold erased
  split
  next hmarked => exact Or.inr hmarked
  next => exact Or.inl rfl

theorem forall₂_erased (points : List Point) :
    List.Forall₂ (fun p p' => p' = erased points p) points (points.map (erased points)) :=
  List.forall₂_map_right_iff.2 (List.forall₂_same.2 fun _ _ => rfl)

theorem validation_ne_nil {points : List Point} {q : Point} (hmarked : Marked points q) :
    validation points ≠ [] := by
  intro hnil
  unfold Marked at hmarked
  rw [hnil] at hmarked
  cases hmarked

/-- A marked point that took part makes the line predict no number when its reference is none. -/
theorem predict_erased {points : List Point} (hpart : ¬ TookNoPart points) {q : Point}
    (hq : q ∈ byLevel points) (hmarked : Marked points q) {fitAll : LinearFit}
    (hall : fitLinear (byLevel (points.map (erased points))) = some fitAll) (x : Binary64) :
    predict (testLine (points.map (erased points)) fitAll) x = Binary64.nan := by
  have hlevel : ∀ p p' : Point, p' = erased points p → p'.1 = p.1 := by
    rintro p p' rfl
    exact fst_erased points p
  have hrel := forall₂_erased points
  have hsorted := byLevel_forall₂ hlevel hrel
  have htrain := training_forall₂ hlevel hrel
  have hval := (validation_forall₂ hlevel hrel).length_eq
  have hsome := fitLinear_isSome_congr (levels_forall₂ hlevel htrain)
  generalize points.map (erased points) = points' at hall hsorted htrain hval hsome ⊢
  have hval' : validation points' ≠ [] := by
    intro hnil
    rw [hnil, List.length_nil, List.length_eq_zero_iff] at hval
    exact validation_ne_nil hmarked hval
  -- in either case a marked point is among those of the line
  obtain ⟨p, hp, hnan⟩ : ∃ p ∈ lineSource points', p.2.isNaN = true := by
    have herased : ∀ p, Marked points p → (erased points p).2.isNaN = true := by
      intro p hp
      rw [erased, if_pos hp]
      exact Binary64.isNaN_nan
    unfold lineSource
    rw [← hsome]
    split
    next htrained =>
      obtain ⟨p, hp, hpmarked⟩ : ∃ p ∈ training points, Marked points p := by
        by_contra hnone
        exact hpart ⟨htrained, fun p hp hpmarked => hnone ⟨p, hp, hpmarked⟩⟩
      obtain ⟨p', hp', rfl⟩ := exists_of_forall₂ htrain hp
      exact ⟨_, hp', herased p hpmarked⟩
    next =>
      obtain ⟨q', hq', rfl⟩ := exists_of_forall₂ hsorted hq
      exact ⟨_, hq', herased q hmarked⟩
  exact predict_of_nan (fitLinear_lineSource hall hval') hp hnan x

/-- Whatever the references of the marked points are, a line through the points has no number at
the level of any of them. -/
def Undefined (points : List Point) : Prop :=
  ∀ points' line, Changed points points' → fitLinear (lineSource points') = some line →
    ∀ p ∈ points, Marked points p → predict line p.1 = Binary64.nan

/-- What validation statistics stand for: they are computed over the residuals that are marked,
as many as points were held out, and the predictions of these do not depend on their
references. -/
structure Independent (points : List Point) (out : FitOutcome) : Prop where
  marks : out.residuals.countP (·.heldOut) = out.validationN
  parts : out.trainN + out.validationN = out.n
  stats : out.validation =
    some (validationStats (markedErrors out.residuals) out.validationN)
  unmoved : ∀ points', Changed points points' → ∃ out',
    fitDisplayCalibration points' = some out' ∧
      List.Forall₂ (fun r r' => Residual.heldOut r = true → r'.predicted = r.predicted)
        out.residuals out'.residuals

/-- Reported statistics are those of the marked points, of which there are some. -/
theorem stats_of_isSome {points : List Point} {out : FitOutcome}
    (hout : fitDisplayCalibration points = some out) (hstats : out.validation.isSome) :
    out.validation = some (validationStats (markedErrors out.residuals) out.validationN) ∧
      ∃ q ∈ byLevel points, Marked points q := by
  obtain ⟨_, -, -, hresiduals, -, -, -, hvalidation⟩ := fitDisplayCalibration_ok hout
  have herrors : markedErrors out.residuals ≠ [] := by
    intro hnil
    rw [hvalidation, if_pos hnil] at hstats
    cases hstats
  constructor
  · rw [hvalidation, if_neg herrors]
  · obtain ⟨e, he⟩ := List.exists_mem_of_ne_nil _ herrors
    obtain ⟨r, hr, -⟩ := List.mem_map.1 he
    obtain ⟨hmem, hheld⟩ := List.mem_filter.1 hr
    rw [hresiduals] at hmem
    obtain ⟨q, hq, rfl⟩ := List.mem_map.1 hmem
    exact ⟨q, hq, hheld⟩

/-- Changed points have the same levels, and their fit keeps the order of the points. -/
theorem Changed.byLevel {points points' : List Point} (hchanged : Changed points points') :
    List.Forall₂ (fun p p' : Point => p'.1 = p.1 ∧ (p'.2 = p.2 ∨ Marked points p))
      (byLevel points) (byLevel points') :=
  byLevel_forall₂ (fun _ _ hp => hp.1) hchanged

/-- Where the predictions of the marked points never move, a line that a marked point took part in
has no numbers for them: erasing the marked references leaves none. -/
theorem undefined_of_unmoved {points : List Point} {out : FitOutcome} {q : Point}
    (hout : fitDisplayCalibration points = some out) (hq : q ∈ byLevel points)
    (hmarked : Marked points q) (hpart : ¬TookNoPart points)
    (hunmoved : ∀ points', Changed points points' → ∃ out',
      fitDisplayCalibration points' = some out' ∧
        List.Forall₂ (fun r r' => Residual.heldOut r = true → r'.predicted = r.predicted)
          out.residuals out'.residuals) : Undefined points := by
  intro points' line hchanged hline p hp hpmarked
  obtain ⟨fitAll, -, -, hresiduals, -⟩ := fitDisplayCalibration_ok hout
  rw [hresiduals] at hunmoved
  have hnan : predict (testLine points fitAll) p.1 = Binary64.nan := by
    obtain ⟨out₀, hout₀, hsame⟩ := hunmoved _ (changed_erased points)
    obtain ⟨fitAll₀, -, hall₀, hresiduals₀, -⟩ := fitDisplayCalibration_ok hout₀
    obtain ⟨r, hr, heq⟩ := exists_of_forall₂ hsame
      (List.mem_map_of_mem ((stableSort_perm _ points).mem_iff.2 hp))
    rw [hresiduals₀] at hr
    obtain ⟨p₀, -, rfl⟩ := List.mem_map.1 hr
    exact (heq hpmarked).symm.trans (predict_erased hpart hq hmarked hall₀ p₀.1)
  -- The line of the changed points predicts at p what the first line does.
  obtain ⟨out₁, hout₁, hsame⟩ := hunmoved points' hchanged
  obtain ⟨fitAll₁, -, hall₁, hresiduals₁, -⟩ := fitDisplayCalibration_ok hout₁
  have hline₁ := fitLinear_lineSource hall₁
    (hchanged.validation_ne_nil (Calibration.validation_ne_nil hmarked))
  obtain rfl := Option.some.inj (hline.symm.trans hline₁)
  rw [hresiduals₁, List.forall₂_map_left_iff, List.forall₂_map_right_iff] at hsame
  have hboth := List.Forall₂.mp (fun _ _ hp heq => And.intro hp.1 heq) hchanged.byLevel hsame
  obtain ⟨p', -, hlevel', heq⟩ := exists_of_forall₂ hboth
    ((stableSort_perm _ points).mem_iff.2 hp)
  exact (congrArg _ hlevel'.symm).trans ((heq hpmarked).trans hnan)

/-- A line that no marked point took part in stays as it is, and one without numbers for the
marked points stays without. -/
theorem unmoved_of_line {points points' : List Point} {out : FitOutcome}
    (hout : fitDisplayCalibration points = some out) (hval : validation points ≠ [])
    (hline : TookNoPart points ∨ Undefined points) (hchanged : Changed points points') :
    ∃ out', fitDisplayCalibration points' = some out' ∧
      List.Forall₂ (fun r r' => Residual.heldOut r = true → r'.predicted = r.predicted)
        out.residuals out'.residuals := by
  obtain ⟨fitAll, hlen, hall, hresiduals, -⟩ := fitDisplayCalibration_ok hout
  obtain ⟨out', hout'⟩ := outcome_forall₂ (fun _ _ hp => hp.1) hchanged hlen (by rw [hall]; rfl)
  obtain ⟨fitAll', -, hall', hresiduals', -⟩ := fitDisplayCalibration_ok hout'
  refine ⟨out', hout', ?_⟩
  rw [hresiduals, hresiduals', List.forall₂_map_left_iff, List.forall₂_map_right_iff]
  rcases hline with hpart | hundefined
  · refine hchanged.byLevel.imp fun p p' hp _ => ?_
    have hline := hpart.testLine_eq hchanged hval fitAll fitAll'
    simp only [residual, hline, hp.1]
  · have hline := fitLinear_lineSource hall hval
    have hline' := fitLinear_lineSource hall' (hchanged.validation_ne_nil hval)
    have hboth := (List.forall₂_and_left (p := (· ∈ points)) _ _).2
      ⟨fun p => (stableSort_perm _ points).mem_iff.1, hchanged.byLevel⟩
    refine hboth.imp fun p p' hp hpmarked => ?_
    have hthis := hundefined points _ (Changed.refl points) hline p hp.1 hpmarked
    have hthat := hundefined points' _ hchanged hline' p hp.1 hpmarked
    simp only [residual, hp.2.1, hthis, hthat]

/-- Reported statistics are independent of the points they are about if and only if as many other
points are marked as points held out are not, for a part that is not a number, and either no marked
point took part in the line or the line has no numbers for them whatever their references. -/
theorem independent_iff {points : List Point} {out : FitOutcome}
    (hout : fitDisplayCalibration points = some out) (hstats : out.validation.isSome) :
    Independent points out ↔
      (training points).countP (isHeldOut (validation points)) =
          (validation points).countP HasNaN ∧
        (TookNoPart points ∨ Undefined points) := by
  obtain ⟨fitAll, -, -, hresiduals, hn, htrainN, hvalN, -⟩ := fitDisplayCalibration_ok hout
  have hmarks : out.residuals.countP (·.heldOut) =
      (byLevel points).countP (isHeldOut (validation points)) := by
    rw [hresiduals, List.countP_map]
    rfl
  have hparts : out.trainN + out.validationN = out.n := by
    rw [htrainN, hvalN, hn, ← List.length_append]
    exact (holdOut_perm (byLevel points)).length_eq
  obtain ⟨hsome, q, hq, hmarked⟩ := stats_of_isSome hout hstats
  rw [← countP_marked, ← hvalN, ← hmarks]
  constructor
  · rintro ⟨hcount, -, -, hunmoved⟩
    exact ⟨hcount, or_iff_not_imp_left.2 fun hpart =>
      undefined_of_unmoved hout hq hmarked hpart hunmoved⟩
  · rintro ⟨hcount, hline⟩
    exact ⟨hcount, hparts, hsome, fun _ hchanged =>
      unmoved_of_line hout (Calibration.validation_ne_nil hmarked) hline hchanged⟩

def fourLevels : List Point := [(0.0, 5.0), (25.0, 6.5), (50.0, 8.0), (100.0, 10.0)]

theorem independent_fourLevels :
    ∃ out, fitDisplayCalibration fourLevels = some out ∧ Independent fourLevels out := by
  have hsome : (fitDisplayCalibration fourLevels).map (·.validation.isSome) = some true ∧
      (training fourLevels).countP (isHeldOut (validation fourLevels)) =
        (validation fourLevels).countP HasNaN ∧ (fitLinear (training fourLevels)).isSome ∧
      ∀ p ∈ training fourLevels, ¬ Marked fourLevels p := by
    decide +kernel
  obtain ⟨hfit, hcount, hpart⟩ := hsome
  obtain ⟨out, hout, hstats⟩ := Option.map_eq_some_iff.1 hfit
  exact ⟨out, hout, (independent_iff hout hstats).2 ⟨hcount, Or.inl hpart⟩⟩

/-- A level is entered twice with the same reference. One of the two points is held out, and both
are marked. -/
def repeated : List Point := [(0.0, 5.0), (50.0, 8.0), (50.0, 8.0), (100.0, 10.0)]

theorem not_independent_repeated :
    ¬ ∀ out, fitDisplayCalibration repeated = some out → out.validation.isSome →
      Independent repeated out := by
  have hfit : (fitDisplayCalibration repeated).map (fun out =>
      (out.residuals.countP (·.heldOut), out.validationN, out.validation.isSome)) =
        some (2, 1, true) := by
    decide +kernel
  obtain ⟨out, hout, hcounts⟩ := Option.map_eq_some_iff.1 hfit
  obtain ⟨hmarked, hheld, hstats⟩ : out.residuals.countP (·.heldOut) = 2 ∧ out.validationN = 1 ∧
      out.validation.isSome = true := by simpa using hcounts
  intro hall
  have hmarks := (hall out hout hstats).marks
  rw [hmarked, hheld] at hmarks
  cases hmarks

end PowerForensics.Calibration
