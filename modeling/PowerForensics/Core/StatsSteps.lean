import PowerForensics.Core.Stats

/-! # The batch integrator one sample at a time

Appending a sample to a series adds one step to it and changes nothing before. The
integrator scans the whole series twice, once for its boundaries and once for its
trapezoids; on a longer series it gives the result on the shorter one, extended by the
last step alone.
-/

namespace PowerForensics.Stats

variable {α : Type} [Scalar α]

/-- What one more step adds to the energy of a series. -/
def SegmentEnergy.extend (seg : SegmentEnergy α) (monoDt : α) (wallDt : Option α)
    (a b : Option α) (maxGapSecs maxSkewSecs : α) : SegmentEnergy α :=
  match classifyStep monoDt wallDt maxGapSecs maxSkewSecs with
  | some _ =>
      { seg with
        unknownSecs := if monoDt > 0.0 then seg.unknownSecs + monoDt else seg.unknownSecs
        unobservedSecs := seg.unobservedSecs + unobserved monoDt wallDt
        discontinuities := seg.discontinuities + 1 }
  | none => seg.addPair monoDt a b maxGapSecs

/-! ## Appending to a series -/

section Append

variable {times walls : List α} {watts : List (Option α)}

theorem at_append_left (t : α) {i : Nat} (hi : i < times.length) :
    at_ (times ++ [t]) i = at_ times i := by
  rw [at_, at_, List.getElem?_append_left hi]

theorem at_append_last (t : α) : at_ (times ++ [t]) times.length = t := by
  simp [at_]

omit [Scalar α] in
theorem getD_append_left (p : Option α) {i : Nat} (hi : i < watts.length) :
    (watts ++ [p]).getD i none = watts.getD i none := by
  rw [List.getD_eq_getElem?_getD, List.getD_eq_getElem?_getD, List.getElem?_append_left hi]

omit [Scalar α] in
theorem getD_append_last (p : Option α) : (watts ++ [p]).getD watts.length none = p := by
  simp [List.getD_eq_getElem?_getD]

variable (gap skew : α) (hwalls : walls.length = times.length)

include hwalls

theorem discontinuityAt_append (t w : α) {i : Nat} (hi : i + 1 < times.length) :
    discontinuityAt (times ++ [t]) (walls ++ [w]) gap skew i =
      discontinuityAt times walls gap skew i := by
  have hlen : (walls ++ [w]).length = (times ++ [t]).length := by simp [hwalls]
  simp only [discontinuityAt, hlen, hwalls, if_true, at_append_left t hi,
    at_append_left t (show i < times.length by omega),
    at_append_left w (show i + 1 < walls.length by omega),
    at_append_left w (show i < walls.length by omega)]

/-- The boundary of the step that a new sample adds. -/
theorem discontinuityAt_last (t w : α) {n : Nat} (hn : times.length = n + 1) :
    discontinuityAt (times ++ [t]) (walls ++ [w]) gap skew n =
      (classifyStep (t - at_ times n) (wallStep (at_ walls n) w) gap skew).map fun kind =>
        ⟨n, kind, t - at_ times n, wallStep (at_ walls n) w,
          unobserved (t - at_ times n) (wallStep (at_ walls n) w)⟩ := by
  have hlen : (walls ++ [w]).length = (times ++ [t]).length := by simp [hwalls]
  have htimes : at_ (times ++ [t]) (n + 1) = t := hn ▸ at_append_last t
  have hwall : at_ (walls ++ [w]) (n + 1) = w := (hwalls.trans hn) ▸ at_append_last w
  simp only [discontinuityAt, hlen, if_true, htimes, hwall,
    at_append_left t (show n < times.length by omega),
    at_append_left w (show n < walls.length by omega)]

omit hwalls in
theorem discontinuities_eq :
    discontinuities times walls gap skew =
      (List.range (times.length - 1)).filterMap (discontinuityAt times walls gap skew) := by
  unfold discontinuities
  split
  next hlen => rw [show times.length - 1 = 0 by omega, List.range_zero, List.filterMap_nil]
  · rfl

/-- A new sample adds the boundary of its own step, if there is one. -/
theorem discontinuities_append (t w : α) {n : Nat} (hn : times.length = n + 1) :
    discontinuities (times ++ [t]) (walls ++ [w]) gap skew =
      discontinuities times walls gap skew ++
        (discontinuityAt (times ++ [t]) (walls ++ [w]) gap skew n).toList := by
  have hlen : (times ++ [t]).length - 1 = n + 1 := by simp [hn]
  have hbegins : (List.range n).filterMap
      (discontinuityAt (times ++ [t]) (walls ++ [w]) gap skew) =
      (List.range n).filterMap (discontinuityAt times walls gap skew) := by
    apply List.filterMap_congr
    intro i hi
    exact discontinuityAt_append gap skew hwalls t w (by rw [List.mem_range] at hi; omega)
  rw [discontinuities_eq, discontinuities_eq, hlen, hn, Nat.add_sub_cancel, List.range_succ,
    List.filterMap_append, hbegins]
  cases hlast : discontinuityAt (times ++ [t]) (walls ++ [w]) gap skew n <;> simp [hlast]

end Append

/-! ## The boundary flags -/

omit [Scalar α] in
/-- The flag of a step is set exactly if one of the listed boundaries is there. -/
theorem getD_setBreaks (disc : List (Discontinuity α)) (breaks : List Bool) {i : Nat}
    (hi : i < breaks.length) :
    (disc.foldl (fun breaks d => breaks.set d.index true) breaks).getD i false =
      (breaks.getD i false || disc.any fun d => d.index = i) := by
  induction disc generalizing breaks with
  | nil => simp
  | cons d disc ih =>
      rw [List.foldl_cons, ih _ (by simpa using hi), List.any_cons]
      by_cases hd : d.index = i
      · simp [hd, List.getD_eq_getElem?_getD, hi]
      · simp [hd, List.getD_eq_getElem?_getD, List.getElem?_set_ne hd]

/-- The flags that the integrator derives from the boundaries of a series. -/
theorem breaks_eq (times walls : List α) (gap skew : α) {i : Nat} (hi : i < times.length - 1) :
    ((discontinuities times walls gap skew).foldl (fun breaks d => breaks.set d.index true)
        (List.replicate (times.length - 1) false)).getD i false =
      (discontinuityAt times walls gap skew i).isSome := by
  have hindex : ∀ {j d}, discontinuityAt times walls gap skew j = some d → d.index = j := by
    intro j d hd
    obtain ⟨kind, -, rfl⟩ := Option.map_eq_some_iff.mp hd
    rfl
  rw [getD_setBreaks _ _ (by simpa using hi), List.getD_eq_getElem?_getD,
    List.getElem?_replicate_of_lt hi, Option.getD_some, Bool.false_or, Bool.eq_iff_iff,
    List.any_eq_true, Option.isSome_iff_exists, discontinuities_eq]
  constructor
  · rintro ⟨d, hd, heq⟩
    obtain ⟨j, -, hj⟩ := List.mem_filterMap.mp hd
    obtain rfl : j = i := (hindex hj).symm.trans (of_decide_eq_true heq)
    exact ⟨d, hj⟩
  · rintro ⟨d, hd⟩
    exact ⟨d, List.mem_filterMap.mpr ⟨i, List.mem_range.mpr hi, hd⟩,
      decide_eq_true (hindex hd)⟩

/-! ## The trapezoid loop -/

/-- One pass of the loop, with the boundary taken from the scan itself. -/
def trapezoidStep (times walls : List α) (watts : List (Option α)) (gap skew : α)
    (out : SegmentEnergy α) (i : Nat) : SegmentEnergy α :=
  let dt := at_ times (i + 1) - at_ times i
  if dt < 0.0 ∨ (discontinuityAt times walls gap skew i).isSome then
    if dt > 0.0 then { out with unknownSecs := out.unknownSecs + dt } else out
  else out.addPair dt (watts.getD i none) (watts.getD (i + 1) none) gap

def trapezoids (times walls : List α) (watts : List (Option α)) (gap skew : α) :
    SegmentEnergy α :=
  (List.range (times.length - 1)).foldl (trapezoidStep times walls watts gap skew) default

theorem foldl_congr_of_mem {β γ : Type} {f g : β → γ → β} {l : List γ}
    (hfg : ∀ x ∈ l, ∀ b, f b x = g b x) (b : β) : l.foldl f b = l.foldl g b := by
  induction l generalizing b with
  | nil => rfl
  | cons x xs ih =>
      rw [List.foldl_cons, List.foldl_cons, hfg x List.mem_cons_self,
        ih fun y hy => hfg y (List.mem_cons_of_mem x hy)]

section Integrate

variable {times walls : List α} {watts : List (Option α)} (gap skew : α)

/-- The integrator is the loop over steps together with the scan of the boundaries. -/
theorem integrateSegmentedClocks_eq (hwatts : watts.length = times.length) :
    integrateSegmentedClocks times walls watts gap skew =
      { trapezoids times walls watts gap skew with
        unobservedSecs :=
          (discontinuities times walls gap skew).foldl (fun s d => s + d.unobservedSecs) 0.0
        discontinuities := (discontinuities times walls gap skew).length } := by
  have hpairs : ∀ breaks : List Bool,
      integratePairs times watts gap breaks =
        (List.range (times.length - 1)).foldl (integrateStep times watts gap breaks) default := by
    intro breaks
    unfold integratePairs
    split
    next hlen =>
      have hshort : times.length < 2 := by omega
      rw [show times.length - 1 = 0 by omega]
      rfl
    · rfl
  have hsteps := foldl_congr_of_mem (l := List.range (times.length - 1))
    (f := integrateStep times watts gap
      ((discontinuities times walls gap skew).foldl (fun breaks d => breaks.set d.index true)
        (List.replicate (times.length - 1) false)))
    (g := trapezoidStep times walls watts gap skew)
    (fun i hi out => by
      rw [integrateStep, trapezoidStep, breaks_eq times walls gap skew (List.mem_range.mp hi)])
    default
  simp only [integrateSegmentedClocks, hpairs, hsteps, trapezoids]

theorem classifyStep_of_backwards {monoDt : α} (hback : monoDt < 0.0) (wallDt : Option α)
    (gap skew : α) : classifyStep monoDt wallDt gap skew = some .clockWentBackwards := by
  simp only [classifyStep, hback, true_or, if_true]

theorem trapezoids_append (hwalls : walls.length = times.length)
    (hwatts : watts.length = times.length) (t w : α) (p : Option α) {n : Nat}
    (hn : times.length = n + 1) :
    trapezoids (times ++ [t]) (walls ++ [w]) (watts ++ [p]) gap skew =
      trapezoidStep (times ++ [t]) (walls ++ [w]) (watts ++ [p]) gap skew
        (trapezoids times walls watts gap skew) n := by
  have hlen : (times ++ [t]).length - 1 = n + 1 := by simp [hn]
  have hbegins := foldl_congr_of_mem (l := List.range n)
    (f := trapezoidStep (times ++ [t]) (walls ++ [w]) (watts ++ [p]) gap skew)
    (g := trapezoidStep times walls watts gap skew)
    (fun i hi out => by
      rw [List.mem_range] at hi
      simp only [trapezoidStep, at_append_left t (show i + 1 < times.length by omega),
        at_append_left t (show i < times.length by omega),
        discontinuityAt_append gap skew hwalls t w (show i + 1 < times.length by omega),
        getD_append_left p (show i < watts.length by omega),
        getD_append_left p (show i + 1 < watts.length by omega)])
    default
  rw [trapezoids, trapezoids, hlen, hn, Nat.add_sub_cancel, List.range_succ, List.foldl_append,
    hbegins]
  rfl

/-- On a longer series the integrator gives the result on the shorter one, extended by
the last step. -/
theorem integrateSegmentedClocks_append (hwalls : walls.length = times.length)
    (hwatts : watts.length = times.length) (t w : α) (p : Option α) {n : Nat}
    (hn : times.length = n + 1) :
    integrateSegmentedClocks (times ++ [t]) (walls ++ [w]) (watts ++ [p]) gap skew =
      (integrateSegmentedClocks times walls watts gap skew).extend (t - at_ times n)
        (wallStep (at_ walls n) w) (watts.getD n none) p gap skew := by
  have hdt : at_ (times ++ [t]) (n + 1) - at_ (times ++ [t]) n = t - at_ times n := by
    have hlast : at_ (times ++ [t]) (n + 1) = t := hn ▸ at_append_last t
    rw [hlast, at_append_left t (show n < times.length by omega)]
  have hbefore : (watts ++ [p]).getD n none = watts.getD n none :=
    getD_append_left p (by omega)
  have hafter : (watts ++ [p]).getD (n + 1) none = p := (hwatts.trans hn) ▸ getD_append_last p
  have hlast := discontinuityAt_last gap skew hwalls t w hn
  rw [integrateSegmentedClocks_eq gap skew (by simp [hwatts]),
    integrateSegmentedClocks_eq gap skew hwatts, trapezoids_append gap skew hwalls hwatts t w p hn,
    discontinuities_append gap skew hwalls t w hn,
    SegmentEnergy.extend]
  cases hclass : classifyStep (t - at_ times n) (wallStep (at_ walls n) w) gap skew with
  | some kind =>
      rw [hclass, Option.map_some] at hlast
      simp only [trapezoidStep, hdt, hlast, Option.isSome_some, or_true, if_true,
        Option.toList_some, List.foldl_append, List.foldl_cons, List.foldl_nil,
        List.length_append, List.length_singleton]
      split <;> rfl
  | none =>
      rw [hclass, Option.map_none] at hlast
      have hforward : ¬ t - at_ times n < 0.0 := by
        intro hback
        have hbackwards := classifyStep_of_backwards hback (wallStep (at_ walls n) w) gap skew
        rw [hbackwards] at hclass
        cases hclass
      simp only [trapezoidStep, hdt, hlast, hforward, Option.isSome_none, Bool.false_eq_true,
        or_self, if_false, hbefore, hafter, Option.toList_none, List.append_nil]
      unfold SegmentEnergy.addPair
      split
      · split <;> rfl
      · rfl

end Integrate

end PowerForensics.Stats
