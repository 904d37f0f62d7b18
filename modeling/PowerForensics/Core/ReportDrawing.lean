import PowerForensics.Binary64.Shares
import PowerForensics.Core.ReportChart

/-! # What can be seen of a chart

The marks of a series stand in the drawing with the coordinates of their points. A point can be
seen where its mark can be and where the coordinates are numbers: the times have to span more than
one number, and a value must not be too far above the lower end of the axis.
-/

namespace PowerForensics.Report

open Grouping

/-! ## The axes -/

section Axes

open Binary64

theorem foldl_min_le {x : Nat} {rest : List Nat} :
    ∀ t ∈ x :: rest, rest.foldl Nat.min x ≤ t := by
  induction rest generalizing x with
  | nil => simp
  | cons y rest ih =>
      intro t ht
      have hstart : (y :: rest).foldl Nat.min x ≤ Nat.min x y := ih _ List.mem_cons_self
      rw [List.mem_cons, List.mem_cons] at ht
      obtain rfl | rfl | ht := ht
      · exact hstart.trans (Nat.min_le_left _ _)
      · exact hstart.trans (Nat.min_le_right _ _)
      · exact ih t (List.mem_cons_of_mem _ ht)

theorem le_foldl_max {x : Nat} {rest : List Nat} :
    ∀ t ∈ x :: rest, t ≤ rest.foldl Nat.max x := by
  induction rest generalizing x with
  | nil => simp
  | cons y rest ih =>
      intro t ht
      have hstart : Nat.max x y ≤ (y :: rest).foldl Nat.max x := ih _ List.mem_cons_self
      rw [List.mem_cons, List.mem_cons] at ht
      obtain rfl | rfl | ht := ht
      · exact (Nat.le_max_left _ _).trans hstart
      · exact (Nat.le_max_right _ _).trans hstart
      · exact ih t (List.mem_cons_of_mem _ ht)

/-- A choice of two is one of the list. -/
theorem foldl_mem {f : Nat → Nat → Nat} (hf : ∀ x y, f x y = x ∨ f x y = y) {x : Nat}
    {rest : List Nat} : rest.foldl f x ∈ x :: rest := by
  induction rest generalizing x with
  | nil => simp
  | cons y rest ih =>
      have hmem : (y :: rest).foldl f x ∈ f x y :: rest := ih
      obtain heq | heq := hf x y <;> rw [heq] at hmem <;> grind

theorem foldl_min_mem {x : Nat} {rest : List Nat} : rest.foldl Nat.min x ∈ x :: rest :=
  foldl_mem fun x y => (Nat.le_total x y).imp Nat.min_eq_left Nat.min_eq_right

theorem foldl_max_mem {x : Nat} {rest : List Nat} : rest.foldl Nat.max x ∈ x :: rest :=
  foldl_mem fun x y => (Nat.le_total y x).imp Nat.max_eq_left Nat.max_eq_right

theorem within_time {t : Nat} (ht : t < 2 ^ 64) : Within 64 (.ofNat t) :=
  within_ofUnits (by decide) false Nat.one_pos
    (by rw [Nat.mul_one]; exact Nat.mul_le_mul_right _ ht.le)

/-- The axis of the times covers all of them. -/
theorem xRange_covers {xs : List Nat} (hxs : ∀ t ∈ xs, t < 2 ^ 64) {t : Nat} (ht : t ∈ xs) :
    (xRange xs).1 ≤ Binary64.ofNat t ∧ Binary64.ofNat t ≤ (xRange xs).2 ∧
      Within 64 (xRange xs).1 := by
  cases xs with
  | nil => simp at ht
  | cons x rest =>
      have hmin := foldl_min_le t ht
      have hmax := le_foldl_max t ht
      have hstart := within_time (hmin.trans_lt (hxs t ht))
      rw [xRange]
      split
      next => exact ⟨ofNat_mono hmin, ofNat_mono hmax, hstart⟩
      next hflat =>
        obtain rfl : rest.foldl Nat.min x = t := by omega
        have hself := le_of_number (fields_of_finite hstart.1).1
        exact ⟨hself, le_add_number hstart.1 hself (by decide +kernel), hstart⟩

/-- Two of the times differ as numbers, or there is one time only and the next one differs. -/
def Spread (xs : List Nat) : Prop :=
  (∃ s ∈ xs, ∃ t ∈ xs, Binary64.ofNat s < Binary64.ofNat t) ∨
    ∃ t ∈ xs, (∀ s ∈ xs, s = t) ∧ Binary64.ofNat t < Binary64.ofNat t + 1.0

theorem xRange_lt_iff {xs : List Nat} (hxs : ∀ t ∈ xs, t < 2 ^ 64) (hne : xs ≠ []) :
    (xRange xs).1 < (xRange xs).2 ↔ Spread xs := by
  constructor
  · intro hlt
    cases xs with
    | nil => exact absurd rfl hne
    | cons x rest =>
        have hmin : rest.foldl Nat.min x ∈ x :: rest := foldl_min_mem
        have hmax : rest.foldl Nat.max x ∈ x :: rest := foldl_max_mem
        rw [xRange] at hlt
        split at hlt
        next => exact Or.inl ⟨_, hmin, _, hmax, hlt⟩
        next hflat =>
          refine Or.inr ⟨_, hmin, fun s hs => ?_, hlt⟩
          have hlow := foldl_min_le s hs
          have hhigh := le_foldl_max s hs
          omega
  · rintro (⟨s, hs, t, ht, hlt⟩ | ⟨t, ht, hall, hlt⟩)
    · exact lt_of_lt_of_le_number (lt_of_le_of_lt_number (xRange_covers hxs hs).1 hlt)
        (xRange_covers hxs ht).2.1
    · cases xs with
      | nil => exact absurd rfl hne
      | cons x rest =>
          have hmin : rest.foldl Nat.min x ∈ x :: rest := foldl_min_mem
          have hmax : rest.foldl Nat.max x ∈ x :: rest := foldl_max_mem
          rw [xRange, hall _ hmin, hall _ hmax]
          simpa using hlt

theorem foldl_min_covers {y : Binary64} {rest : List Binary64}
    (hys : ∀ v ∈ y :: rest, v.isFinite = true) :
    (rest.foldl min y).isFinite = true ∧ ∀ v ∈ y :: rest, rest.foldl min y ≤ v := by
  obtain ⟨hmem, hleast⟩ :=
    foremost_foldl (· ≤ ·) le_refl (fun _ _ _ => le_trans) foremost_min y rest
  refine ⟨hys _ hmem, fun v hv => ?_⟩
  have hnan := (fields_of_finite (hys v hv)).1
  obtain ⟨hnan', hle⟩ := hleast v hv hnan
  exact ⟨hnan', hnan, hle⟩

theorem foldl_max_covers {y : Binary64} {rest : List Binary64}
    (hys : ∀ v ∈ y :: rest, v.isFinite = true) :
    (rest.foldl max y).isFinite = true ∧ ∀ v ∈ y :: rest, v ≤ rest.foldl max y := by
  obtain ⟨hmem, hmost⟩ := foremost_foldl (· ≥ ·) (fun _ => le_refl _)
    (fun _ _ _ hab hbc => le_trans hbc hab) foremost_max y rest
  refine ⟨hys _ hmem, fun v hv => ?_⟩
  have hnan := (fields_of_finite (hys v hv)).1
  obtain ⟨hnan', hle⟩ := hmost v hv hnan
  exact ⟨hnan, hnan', hle⟩

/-- The ends of the axis, before the margin is added. -/
structure Covers (y : Binary64 × Binary64) (v : Binary64) : Prop where
  low : y.1 ≤ v
  high : v ≤ y.2
  finite : y.1.isFinite = true ∧ y.2.isFinite = true
  wide : y.1 < y.2

theorem yRange_covers {ys : List Binary64} (hys : ∀ v ∈ ys, v.isFinite = true) {v : Binary64}
    (hv : v ∈ ys) : Covers (yRange ys) v := by
  cases ys with
  | nil => simp at hv
  | cons y rest =>
      obtain ⟨hminfin, hmin⟩ := foldl_min_covers hys
      obtain ⟨hmaxfin, hmax⟩ := foldl_max_covers hys
      rw [yRange]
      split
      next hlt => exact ⟨hmin v hv, hmax v hv, ⟨hminfin, hmaxfin⟩, hlt⟩
      next hflat =>
        have hle := le_of_not_lt_number (hmin v hv).1 (hmax v hv).2.1 hflat
        have hzero : ∀ w ∈ [rest.foldl min y, 0.0], w.isFinite = true := by
          simpa [hminfin] using show (0.0 : Binary64).isFinite = true by decide +kernel
        have hone : ∀ w ∈ [rest.foldl min y, 1.0], w.isFinite = true := by
          simpa [hminfin] using show (1.0 : Binary64).isFinite = true by decide +kernel
        obtain ⟨hlowfin, hlow⟩ := foldl_min_covers hzero
        obtain ⟨hhighfin, hhigh⟩ := foldl_max_covers hone
        have hstart := hlow _ List.mem_cons_self
        have hend := hhigh _ List.mem_cons_self
        refine ⟨le_trans_number hstart (hmin v hv),
          le_trans_number (hmax v hv) (le_trans_number hle hend), ⟨hlowfin, hhighfin⟩, ?_⟩
        have hnone : (0.0 : Binary64) < 1.0 := by decide +kernel
        exact lt_of_le_of_lt_number (hlow 0.0 (by simp))
          (lt_of_lt_of_le_number hnone (hhigh 1.0 (by simp)))

/-- The margin leaves the axis as it is or widens it. -/
theorem padded_covers {y : Binary64 × Binary64} {v : Binary64} (h : Covers y v) :
    (padded y).1 ≤ v ∧ v ≤ (padded y).2 ∧ (padded y).1 < (padded y).2 := by
  let wide := if (y.2 - y.1).abs < epsilon then (y.1 - 0.5, y.2 + 0.5) else y
  have hself := fun {w : Binary64} (hw : w.isFinite = true) => le_of_number (fields_of_finite hw).1
  obtain ⟨hlow, hhigh⟩ : wide.1 ≤ y.1 ∧ y.2 ≤ wide.2 := by
    unfold wide
    split
    · have hhalf : (0.0 : Binary64) ≤ 0.5 := by decide +kernel
      exact ⟨sub_le_number h.finite.1 (hself h.finite.1) hhalf,
        le_add_number h.finite.2 (hself h.finite.2) hhalf⟩
    · exact ⟨hself h.finite.1, hself h.finite.2⟩
  have hlt : wide.1 < wide.2 := lt_of_le_of_lt_number hlow (lt_of_lt_of_le_number h.wide hhigh)
  have hlong : (0.0 : Binary64) < wide.2 - wide.1 :=
    (sub_between hlow (le_trans_number h.low (le_trans_number h.high hhigh)) h.finite.1).2.2.mpr hlt
  have hpad : (0.0 : Binary64) ≤ (wide.2 - wide.1) * 0.05 := by
    have hshare : (0.0 : Binary64) < 0.05 ∧ (0.05 : Binary64).isFinite = true ∧
        (0.05 : Binary64) ≤ 0.05 := by decide +kernel
    have hplus := (mul_le_mul_left_number (plus_of_lt hlong) hshare.1 hshare.2.1 hshare.2.2).1
    exact zero_le_of_rank hplus.1 (by rw [hplus.rank_eq]; exact Int.natCast_nonneg _)
  have hstart : wide.1 - (wide.2 - wide.1) * 0.05 ≤ y.1 :=
    le_trans_number (sub_le_number h.finite.1 hlow hpad) hlow
  have hend : y.2 ≤ wide.2 + (wide.2 - wide.1) * 0.05 :=
    le_trans_number hhigh (le_add_number h.finite.2 hhigh hpad)
  exact ⟨le_trans_number hstart h.low, le_trans_number h.high hend,
    lt_of_le_of_lt_number hstart (lt_of_lt_of_le_number h.wide hend)⟩

end Axes

/-! ## The places of the points -/

section Places

open Binary64

/-- The coordinates of a point are numbers. -/
def Frame.Places (f : Frame) (v : Vertex) : Prop :=
  (f.sx (.ofNat v.tMs.toNat)).isFinite = true ∧ (f.sy v.value).isFinite = true

/-- The times of a chart do not fall together, and a value is not too far above the lower end of
the values, which lies a twentieth of their span below the smallest of them. -/
structure Placeable (chart : ReportChart) (v : Vertex) : Prop where
  times : Spread (times chart)
  value : (v.value - (padded (yRange (values chart))).1).isFinite = true

theorem times_lt {chart : ReportChart} : ∀ t ∈ times chart, t < 2 ^ 64 := by
  intro t ht
  rw [times, List.mem_append, List.mem_flatMap, List.mem_map] at ht
  obtain ⟨s, -, hp⟩ | ⟨e, -, rfl⟩ := ht
  · obtain ⟨p, -, rfl⟩ := List.mem_map.mp hp
    exact p.tMs.toNat_lt
  · exact e.tMs.toNat_lt

theorem mem_of_known {points : List ChartPoint} {v : Vertex} (hv : v ∈ known points) :
    ∃ p ∈ points, p.tMs = v.tMs ∧ p.value = some v.value := by
  obtain ⟨⟨p, place⟩, hp, hvertex⟩ := List.mem_filterMap.mp hv
  obtain ⟨value, hvalue, rfl⟩ := Option.map_eq_some_iff.mp hvertex
  exact ⟨p, List.fst_mem_of_mem_zipIdx hp, rfl, hvalue⟩

theorem isFinite_sx_iff {chart : ReportChart} {t : Nat} (ht : t ∈ times chart) :
    ((frameOf chart).sx (.ofNat t)).isFinite = true ↔ Spread (times chart) := by
  obtain ⟨hlow, hhigh, hstart⟩ := xRange_covers times_lt ht
  have htime := within_time (times_lt t ht)
  have hfar := (htime.sub hstart (by decide)).1
  have hshare := within_share hlow hhigh htime.1
  have hconstants : Within 10 padL ∧ Within 10 (chartW - padL - padR) := by
    unfold Within
    decide +kernel
  calc ((frameOf chart).sx (.ofNat t)).isFinite = true
      ↔ ((Binary64.ofNat t - (xRange (times chart)).1) /
          ((xRange (times chart)).2 - (xRange (times chart)).1)).isFinite = true :=
        isFinite_placed_iff hconstants.1 hconstants.2 fun h => (hshare h).mono (by decide)
    _ ↔ (xRange (times chart)).1 < (xRange (times chart)).2 := by
        rw [isFinite_share_iff hlow hhigh htime.1, and_iff_left hfar]
    _ ↔ Spread (times chart) := xRange_lt_iff times_lt (List.ne_nil_of_mem ht)

theorem isFinite_sy_iff {chart : ReportChart} (hfinite : ∀ v ∈ values chart, v.isFinite = true)
    {v : Binary64} (hv : v ∈ values chart) :
    ((frameOf chart).sy v).isFinite = true ↔
      (v - (padded (yRange (values chart))).1).isFinite = true := by
  obtain ⟨hlow, hhigh, hlt⟩ := padded_covers (yRange_covers hfinite hv)
  have hshare := within_share hlow hhigh (hfinite v hv)
  have hconstants : Within 10 padT ∧ Within 10 (chartH - padT - padB) ∧ Within 0 1.0 := by
    unfold Within
    decide +kernel
  let share := (v - (padded (yRange (values chart))).1) /
    ((padded (yRange (values chart))).2 - (padded (yRange (values chart))).1)
  have hrest : (1.0 - share).isFinite = true ↔ share.isFinite = true := by
    constructor
    · exact fun h => (isFinite_neg share).symm.trans (finite_of_add h).2
    · exact fun h => (hconstants.2.2.sub (hshare h) (by decide)).1
  calc ((frameOf chart).sy v).isFinite = true
      ↔ (1.0 - share).isFinite = true :=
        isFinite_placed_iff hconstants.1 hconstants.2.1 fun h =>
          hconstants.2.2.sub (hshare (hrest.mp h)) (by decide)
    _ ↔ share.isFinite = true := hrest
    _ ↔ (v - (padded (yRange (values chart))).1).isFinite = true := by
        rw [isFinite_share_iff hlow hhigh (hfinite v hv), and_iff_right hlt]

/-- The coordinates of a known point are numbers exactly where it can be placed. -/
theorem places_iff {chart : ReportChart} (hfinite : ∀ v ∈ values chart, v.isFinite = true)
    {s : ChartSeries} (hs : s ∈ chart.series) {v : Vertex} (hv : v ∈ known s.points) :
    (frameOf chart).Places v ↔ Placeable chart v := by
  obtain ⟨p, hp, htime, hvalue⟩ := mem_of_known hv
  have ht : v.tMs.toNat ∈ times chart := by
    rw [times, List.mem_append, List.mem_flatMap]
    exact Or.inl ⟨s, hs, List.mem_map.mpr ⟨p, hp, by rw [htime]⟩⟩
  have hmem : v.value ∈ values chart := by
    rw [values, List.mem_flatMap]
    exact ⟨s, hs, List.mem_filterMap.mpr ⟨p, hp, hvalue⟩⟩
  rw [Frame.Places, isFinite_sx_iff ht, isFinite_sy_iff hfinite hmem]
  exact ⟨fun h => ⟨h.1, h.2⟩, fun h => ⟨h.1, h.2⟩⟩

end Places

/-! ## The drawing -/

section Drawing

/-- A mark stands in the drawing, with the class of some series. -/
def Mark.Written (chart : ReportChart) (m : Mark) : Prop :=
  ∃ cls before after, renderChart chart = before ++ m.svg (frameOf chart) cls ++ after

/-- Every known point of a series can be seen in the drawing at its coordinates, and no line joins
points that it may not. -/
structure Visible (chart : ReportChart) (points : List ChartPoint) : Prop where
  shown : ∀ v ∈ known points, ∃ m ∈ seriesMarks chart.gapMs points,
    m.Shows v ∧ m.Written chart ∧ (frameOf chart).Places v
  honest : ∀ vs : List Vertex, .polyline vs ∈ seriesMarks chart.gapMs points →
    ∀ u w : Vertex, Next vs u w → Joinable chart.gapMs points u w

theorem intercalate_of_mem {text : String} {texts : List String} (htext : text ∈ texts) :
    ∃ before after, "".intercalate texts = before ++ text ++ after := by
  induction texts with
  | nil => simp at htext
  | cons first texts ih =>
      have hcons : "".intercalate (first :: texts) = first ++ "".intercalate texts := by
        cases texts with
        | nil => simp
        | cons next texts => simp [String.intercalate_cons_cons]
      obtain rfl | htext := List.mem_cons.mp htext
      · exact ⟨"", "".intercalate texts, by rw [hcons, String.empty_append]⟩
      · obtain ⟨before, after, heq⟩ := ih htext
        exact ⟨first ++ before, after, by rw [hcons, heq]; simp only [String.append_assoc]⟩

/-- Each mark of a series stands in the drawing. -/
theorem written_of_mem {chart : ReportChart} {s : ChartSeries} (hs : s ∈ chart.series) {m : Mark}
    (hm : m ∈ seriesMarks chart.gapMs s.points) : m.Written chart := by
  obtain ⟨i, hi⟩ := List.mem_iff_getElem?.mp hs
  have hmark : (s!"s{i % 6}", m) ∈ chartMarks chart := by
    rw [chartMarks, List.mem_flatMap]
    exact ⟨(s, i), List.mk_mem_zipIdx_iff_getElem?.mpr hi, List.mem_map.mpr ⟨m, hm, rfl⟩⟩
  obtain ⟨before, after, hmarks⟩ := intercalate_of_mem
    (List.mem_map_of_mem (f := fun m => m.2.svg (frameOf chart) m.1) hmark)
  refine ⟨s!"s{i % 6}", chartHead chart ++
    "".intercalate ([0.0, 0.5, 1.0].map (gridLine (frameOf chart))) ++
    "".intercalate (chart.events.map (eventLine (frameOf chart))) ++ before,
    after ++ chartTail chart, ?_⟩
  rw [renderChart, hmarks]
  simp only [String.append_assoc]

/-- A chart of numbers shows every known point and joins only what it may join, exactly where each
series can be drawn and each of its points can be placed. -/
theorem chart_drawn_iff (chart : ReportChart)
    (hfinite : ∀ v ∈ values chart, v.isFinite = true) :
    (∀ s ∈ chart.series, Visible chart s.points) ↔
      ∀ s ∈ chart.series, Drawable chart.gapMs s.points ∧
        ∀ v ∈ known s.points, Placeable chart v := by
  refine forall₂_congr fun s hs => ?_
  rw [← drawn_iff]
  constructor
  · intro h
    refine ⟨⟨fun v hv => ?_, h.honest⟩, fun v hv => ?_⟩
    · obtain ⟨m, hm, hshows, -⟩ := h.shown v hv
      exact ⟨m, hm, hshows⟩
    · obtain ⟨m, -, -, -, hplaces⟩ := h.shown v hv
      exact (places_iff hfinite hs hv).mp hplaces
  · rintro ⟨hdrawn, hplaceable⟩
    refine ⟨fun v hv => ?_, hdrawn.honest⟩
    obtain ⟨m, hm, hshows⟩ := hdrawn.shown v hv
    exact ⟨m, hm, hshows, written_of_mem hs hm,
      (places_iff hfinite hs hv).mpr (hplaceable v hv)⟩

end Drawing

/-- Two measured points, a gap, a derived point, and a measured one much later. -/
def steadyPoints : List ChartPoint :=
  [⟨0, some 1.0, "measured"⟩, ⟨1000, some 2.0, "measured"⟩, ⟨2000, none, "measured"⟩,
    ⟨3000, some 3.0, "derived"⟩, ⟨10000, some 4.0, "measured"⟩]

def steadyChart : ReportChart :=
  ⟨"Power", [⟨"cpu", "W", steadyPoints⟩], [], some 1000, none⟩

theorem chart_drawn_steady : Visible steadyChart steadyPoints := by
  have hfinite : ∀ v ∈ values steadyChart, v.isFinite = true := by decide +kernel
  refine (chart_drawn_iff steadyChart hfinite).mpr (fun s hs => ?_) ⟨"cpu", "W", steadyPoints⟩
    (List.mem_singleton.mpr rfl)
  obtain rfl : s = ⟨"cpu", "W", steadyPoints⟩ := List.mem_singleton.mp hs
  refine ⟨⟨by decide +kernel, ?_⟩, fun v hv => ⟨?_, ?_⟩⟩
  · intro u hu w hw hlinked _ g hg
    obtain rfl : (1000 : UInt64) = g := Option.some.inj hg
    revert u w
    decide +kernel
  · exact Or.inl (by decide +kernel)
  · revert v
    decide +kernel

/-- A derived point between measured ones. -/
def mixedPoints : List ChartPoint :=
  [⟨0, some 1.0, "measured"⟩, ⟨1000, some 2.0, "derived"⟩, ⟨2000, some 3.0, "measured"⟩]

def mixedChart : ReportChart :=
  ⟨"Power", [⟨"cpu", "W", mixedPoints⟩], [], some 1000, none⟩

/-- Each of the points becomes a line of its own, which has one vertex and cannot be seen. -/
theorem mixed_unseen : (∀ v ∈ values mixedChart, v.isFinite = true) ∧
    ¬∀ s ∈ mixedChart.series, Visible mixedChart s.points := by
  refine ⟨by decide +kernel, fun h => ?_⟩
  have hvisible : Visible mixedChart mixedPoints :=
    h ⟨"cpu", "W", mixedPoints⟩ (by simp [mixedChart])
  have hmarks : seriesMarks (some 1000) mixedPoints =
      [.polyline [⟨0, 0, 1.0, "measured"⟩], .polyline [⟨1, 1000, 2.0, "derived"⟩],
        .polyline [⟨2, 2000, 3.0, "measured"⟩]] := rfl
  obtain ⟨m, hm, hshows, -⟩ :=
    hvisible.shown ⟨1, 1000, 2.0, "derived"⟩ (List.mem_of_getElem? (i := 1) rfl)
  have hm : m ∈ seriesMarks (some 1000) mixedPoints := hm
  rw [hmarks] at hm
  obtain rfl | rfl | rfl : _ ∨ _ ∨ _ := by simpa using hm
  all_goals
    have hlong := hshows.2
    simp at hlong

end PowerForensics.Report
