import PowerForensics.Binary64.Decimal
import PowerForensics.Binary64.Order
import PowerForensics.System.Pieces

/-! # Charts of a report

A chart is drawn as text. The known points of a series are collected into runs, which end at a
missing value and at a jump in time; a run is split where its provenance changes, and its parts
are drawn as lines. A run of one point is drawn as a dot, a part of one point is not.
-/

namespace PowerForensics.Report

open Grouping

/-- A point of a chart. A missing value stays a gap. -/
structure ChartPoint where
  tMs : UInt64
  value : Option Binary64
  provenance : String

structure ChartSeries where
  label : String
  unit : String
  points : List ChartPoint

structure ChartEvent where
  tMs : UInt64
  label : String

structure ReportChart where
  title : String
  series : List ChartSeries
  events : List ChartEvent
  /-- The expected spacing of the samples; much more is drawn as a gap. -/
  gapMs : Option UInt64
  note : Option String

/-! ## Texts -/

def escapeChar : Char → List Char
  | '&' => "&amp;".toList
  | '<' => "&lt;".toList
  | '>' => "&gt;".toList
  | '"' => "&quot;".toList
  | '\'' => "&#39;".toList
  | c => [c]

def escapeHtml (s : String) : String := .ofList (s.toList.flatMap escapeChar)

/-- A number with some decimals. -/
def decimals (places : Nat) (x : Binary64) : String := .ofList (x.fixed places)

def trimEnd (c : Char) (s : List Char) : List Char := (s.reverse.dropWhile (· = c)).reverse

/-- Three decimals without zeros at the end. -/
def num (v : Binary64) : String :=
  if v.isFinite then
    let s := trimEnd '.' (trimEnd '0' (v.fixed 3))
    if s = [] ∨ s = ['-'] then "0" else .ofList s
  else "—"

/-! ## The frame -/

def chartW : Binary64 := 720.0
def chartH : Binary64 := 200.0
def padL : Binary64 := 52.0
def padR : Binary64 := 10.0
def padT : Binary64 := 12.0
def padB : Binary64 := 22.0

/-- The times and the values that a chart covers. -/
structure Frame where
  x0 : Binary64
  x1 : Binary64
  y0 : Binary64
  y1 : Binary64

def times (chart : ReportChart) : List Nat :=
  (chart.series.flatMap fun s => s.points.map fun p => p.tMs.toNat) ++
    chart.events.map fun e => e.tMs.toNat

def values (chart : ReportChart) : List Binary64 :=
  chart.series.flatMap fun s => s.points.filterMap ChartPoint.value

def xRange (xs : List Nat) : Binary64 × Binary64 :=
  match xs with
  | [] => (0.0, 1.0)
  | x :: rest =>
      let a := rest.foldl Nat.min x
      let b := rest.foldl Nat.max x
      if a < b then (.ofNat a, .ofNat b) else (.ofNat a, .ofNat a + 1.0)

def yRange (ys : List Binary64) : Binary64 × Binary64 :=
  match ys with
  | [] => (0.0, 1.0)
  | y :: rest =>
      let a := rest.foldl Min.min y
      let b := rest.foldl Max.max y
      if a < b then (a, b) else (Min.min a 0.0, Max.max a 1.0)

def epsilon : Binary64 := 2.220446049250313e-16

/-- A range that is not flat, with a margin. -/
def padded (y : Binary64 × Binary64) : Binary64 × Binary64 :=
  let y := if (y.2 - y.1).abs < epsilon then (y.1 - 0.5, y.2 + 0.5) else y
  let pad := (y.2 - y.1) * 0.05
  (y.1 - pad, y.2 + pad)

def frameOf (chart : ReportChart) : Frame :=
  let x := xRange (times chart)
  let y := padded (yRange (values chart))
  ⟨x.1, x.2, y.1, y.2⟩

def Frame.sx (f : Frame) (t : Binary64) : Binary64 :=
  padL + (t - f.x0) / (f.x1 - f.x0) * (chartW - padL - padR)

def Frame.sy (f : Frame) (v : Binary64) : Binary64 :=
  padT + (1.0 - (v - f.y0) / (f.y1 - f.y0)) * (chartH - padT - padB)

/-! ## Runs -/

/-- A known point with its place in the series. -/
structure Vertex where
  place : Nat
  tMs : UInt64
  value : Binary64
  provenance : String
  deriving DecidableEq

inductive Mark where
  | dot (v : Vertex)
  | polyline (vs : List Vertex)

/-- A step in time of more than twice the spacing, if there is one. -/
def jumps (gapMs prev : Option UInt64) (tMs : UInt64) : Bool :=
  match prev, gapMs with
  | some pt, some g =>
      decide (0 < g) && decide (min (g.toNat * 2) (2 ^ 64 - 1) < tMs.toNat - pt.toNat)
  | _, _ => false

/-- The part of a run that has been begun, and the parts of the rest of the run. -/
def splitRun (part : List Vertex) (provenance : String) : List Vertex → List (List Vertex)
  | [] => [part]
  | v :: rest =>
      if v.provenance ≠ provenance then part :: splitRun [v] v.provenance rest
      else splitRun (part ++ [v]) provenance rest

/-- A run is drawn as a dot or as one line for each part. -/
def flushRun : List Vertex → List Mark
  | [] => []
  | [v] => [.dot v]
  | v :: rest => (splitRun [v] v.provenance rest).map .polyline

/-- The marks of a run that has been begun and of the points behind it. -/
def drawPoints (gapMs : Option UInt64) (run : List Vertex) (prev : Option UInt64) :
    List (ChartPoint × Nat) → List Mark
  | [] => flushRun run
  | (p, place) :: rest =>
      match p.value with
      | none => flushRun run ++ drawPoints gapMs [] (some p.tMs) rest
      | some v =>
          let vertex : Vertex := ⟨place, p.tMs, v, p.provenance⟩
          if jumps gapMs prev p.tMs then
            flushRun run ++ drawPoints gapMs [vertex] (some p.tMs) rest
          else drawPoints gapMs (run ++ [vertex]) (some p.tMs) rest

/-- The marks of a series. -/
def seriesMarks (gapMs : Option UInt64) (points : List ChartPoint) : List Mark :=
  drawPoints gapMs [] none points.zipIdx

/-! ## The drawing -/

def Frame.x (f : Frame) (v : Vertex) : String := decimals 1 (f.sx (.ofNat v.tMs.toNat))

def Frame.y (f : Frame) (v : Vertex) : String := decimals 1 (f.sy v.value)

def dashes (provenance : String) : String :=
  if provenance = "measured" ∨ provenance = "fresh" then "none" else "5 4"

def vertexText (f : Frame) (v : Vertex) : String := s!"{f.x v},{f.y v}"

def Mark.svg (f : Frame) (cls : String) : Mark → String
  | .dot v => s!"<circle cx=\"{f.x v}\" cy=\"{f.y v}\" r=\"1.6\" class=\"pt {cls}\" " ++
      s!"data-prov=\"{escapeHtml v.provenance}\"/>"
  | .polyline vs =>
      let points := " ".intercalate (vs.map (vertexText f))
      let provenance := (vs.head?.map Vertex.provenance).getD ""
      s!"<polyline points=\"{points}\" fill=\"none\" class=\"line {cls}\" " ++
        s!"data-prov=\"{escapeHtml provenance}\" stroke-dasharray=\"{dashes provenance}\"/>"

def chartHead (chart : ReportChart) : String :=
  let title := escapeHtml chart.title
  let w := String.ofList chartW.display
  let h := String.ofList chartH.display
  s!"<figure class=\"rpt-chart\"><figcaption>{title}</figcaption>" ++
    s!"<svg viewBox=\"0 0 {w} {h}\" width=\"100%\" height=\"200\" role=\"img\" " ++
    s!"aria-label=\"{title}\" preserveAspectRatio=\"none\">" ++
    s!"<rect x=\"0\" y=\"0\" width=\"{w}\" height=\"{h}\" class=\"bg\"/>"

/-- A line at some share of the height, with its value. -/
def gridLine (f : Frame) (frac : Binary64) : String :=
  let v := f.y1 - (f.y1 - f.y0) * frac
  let y := f.sy v
  let height := decimals 1 y
  s!"<line x1=\"{decimals 1 padL}\" y1=\"{height}\" x2=\"{decimals 1 (chartW - padR)}\" " ++
    s!"y2=\"{height}\" class=\"grid\"/>" ++
    s!"<text x=\"{decimals 1 (padL - 4.0)}\" y=\"{decimals 1 (y + 3.0)}\" class=\"axis\" " ++
    s!"text-anchor=\"end\">{num v}</text>"

def eventLine (f : Frame) (e : ChartEvent) : String :=
  let x := decimals 1 (f.sx (.ofNat e.tMs.toNat))
  s!"<line x1=\"{x}\" y1=\"{decimals 1 padT}\" x2=\"{x}\" y2=\"{decimals 1 (chartH - padB)}\" " ++
    s!"class=\"event\"><title>{escapeHtml e.label}</title></line>"

/-- The marks of all series, each with the class of its series. -/
def chartMarks (chart : ReportChart) : List (String × Mark) :=
  chart.series.zipIdx.flatMap fun q =>
    (seriesMarks chart.gapMs q.1.points).map fun m => (s!"s{q.2 % 6}", m)

def chartTail (chart : ReportChart) : String :=
  let unit := escapeHtml ((chart.series.head?.map ChartSeries.unit).getD "")
  s!"<text x=\"{decimals 1 (chartW - padR)}\" y=\"{decimals 1 (chartH - 6.0)}\" " ++
    s!"class=\"axis\" text-anchor=\"end\">{unit}</text></svg>" ++
    (match chart.note with
      | some note => s!"<p class=\"rpt-cap\">{escapeHtml note}</p>"
      | none => "") ++
    "</figure>\n"

def renderChart (chart : ReportChart) : String :=
  let f := frameOf chart
  chartHead chart ++ "".intercalate ([0.0, 0.5, 1.0].map (gridLine f)) ++
    "".intercalate (chart.events.map (eventLine f)) ++
    "".intercalate ((chartMarks chart).map fun m => m.2.svg f m.1) ++ chartTail chart

/-! ## What a chart shows -/

def vertexOf (q : ChartPoint × Nat) : Option Vertex :=
  q.1.value.map fun v => ⟨q.2, q.1.tMs, v, q.1.provenance⟩

/-- The known points of a series. -/
def known (points : List ChartPoint) : List Vertex := points.zipIdx.filterMap vertexOf

/-- The second point follows the first at once, and there is no jump between them. -/
def linked (gapMs : Option UInt64) (u w : Vertex) : Bool :=
  decide (w.place = u.place + 1) && !jumps gapMs (some u.tMs) w.tMs

def alike (u w : Vertex) : Bool := decide (u.provenance = w.provenance)

/-- The times of two points differ by no more than twice the spacing, if one is given. -/
def Near (gapMs : Option UInt64) (u w : Vertex) : Prop :=
  ∀ g : UInt64, gapMs = some g →
    u.tMs.toNat ≤ w.tMs.toNat + 2 * g.toNat ∧ w.tMs.toNat ≤ u.tMs.toNat + 2 * g.toNat

/-- A mark from which a point can be seen. -/
def Mark.Shows (v : Vertex) : Mark → Prop
  | .dot u => u = v
  | .polyline vs => v ∈ vs ∧ 2 ≤ vs.length

/-- Two known points that a line may join. -/
structure Joinable (gapMs : Option UInt64) (points : List ChartPoint) (u w : Vertex) : Prop where
  known : u ∈ known points ∧ w ∈ known points
  follow : w.place = u.place + 1
  provenance : u.provenance = w.provenance
  near : Near gapMs u w

/-- Every known point of the series can be seen, and no line joins points that it may not. -/
structure Drawn (gapMs : Option UInt64) (points : List ChartPoint) : Prop where
  shown : ∀ v ∈ known points, ∃ m ∈ seriesMarks gapMs points, m.Shows v
  honest : ∀ vs : List Vertex, .polyline vs ∈ seriesMarks gapMs points →
    ∀ u w : Vertex, Next vs u w → Joinable gapMs points u w

/-- Where a known point has a linked neighbour it has one of its own provenance, and linked
points of one provenance are near each other. -/
structure Drawable (gapMs : Option UInt64) (points : List ChartPoint) : Prop where
  kin : ∀ v ∈ known points,
    (∃ u ∈ known points, linked gapMs u v = true ∨ linked gapMs v u = true) →
    ∃ u ∈ known points,
      (linked gapMs u v = true ∨ linked gapMs v u = true) ∧ u.provenance = v.provenance
  near : ∀ u ∈ known points, ∀ w ∈ known points,
    linked gapMs u w = true → u.provenance = w.provenance → Near gapMs u w

section Groups

variable {gapMs : Option UInt64} {points : List ChartPoint} {u v w : Vertex}

theorem splitRun_eq {part : List Vertex} {provenance : String} (hne : part ≠ [])
    (hpart : ∀ v ∈ part, v.provenance = provenance) (rest : List Vertex) :
    splitRun part provenance rest = (part ++ rest).splitBy alike := by
  have hchain : part.IsChain (alike · · = true) :=
    List.Pairwise.isChain (List.pairwise_of_forall_mem_list fun u hu w hw => by
      simp [alike, hpart u hu, hpart w hw])
  induction rest generalizing part provenance with
  | nil => rw [splitRun, List.append_nil, List.splitBy_of_isChain hne hchain]
  | cons v rest ih =>
      rw [splitRun]
      split
      next hv =>
        have hborder : ∀ x ∈ part.getLast?, ∀ y ∈ (v :: rest).head?, alike x y = false := by
          intro x hx y hy
          obtain rfl : v = y := by simpa using hy
          have hx := hpart x (List.mem_of_getLast? hx)
          simp [alike, hx, Ne.symm hv]
        rw [ih (List.cons_ne_nil v []) (by simp) (List.isChain_singleton v),
          List.splitBy_append hborder, List.splitBy_of_isChain hne hchain]
        rfl
      next hv =>
        have hv : v.provenance = provenance := not_not.mp hv
        have hall : ∀ x ∈ part ++ [v], x.provenance = provenance := by
          intro x hx
          obtain hx | rfl := List.mem_append.mp hx |>.imp_right List.mem_singleton.mp
          · exact hpart x hx
          · exact hv
        rw [ih (by simp) hall, List.append_assoc, List.singleton_append]
        exact List.Pairwise.isChain (List.pairwise_of_forall_mem_list fun u hu w hw => by
          simp [alike, hall u hu, hall w hw])

/-- The run that has been begun, before the point at some place. -/
structure Begun (gapMs : Option UInt64) (run : List Vertex) (prev : Option UInt64)
    (place : Nat) : Prop where
  chain : run.IsChain (linked gapMs · · = true)
  ends : ∀ u ∈ run.getLast?, u.place + 1 = place ∧ prev = some u.tMs

theorem Begun.nothing (prev : Option UInt64) (place : Nat) : Begun gapMs [] prev place :=
  ⟨List.isChain_nil, by simp⟩

theorem Begun.single (v : Vertex) : Begun gapMs [v] (some v.tMs) (v.place + 1) :=
  ⟨List.isChain_singleton v, by simp⟩

/-- A run goes on with a point that is no jump away. -/
theorem Begun.push {run : List Vertex} {prev : Option UInt64} (h : Begun gapMs run prev v.place)
    (hnear : ¬jumps gapMs prev v.tMs = true) :
    Begun gapMs (run ++ [v]) (some v.tMs) (v.place + 1) := by
  refine ⟨List.isChain_append.mpr ⟨h.chain, List.isChain_singleton v, ?_⟩, by simp⟩
  intro u hu w hw
  obtain rfl : v = w := by simpa using hw
  obtain ⟨hplace, rfl⟩ := h.ends u hu
  simp [linked, hplace, hnear]

theorem Begun.flushRun_eq {run : List Vertex} {prev : Option UInt64} {place : Nat}
    (h : Begun gapMs run prev place) :
    flushRun run = (run.splitBy (linked gapMs)).flatMap flushRun := by
  cases run with
  | nil => rfl
  | cons v run =>
      rw [List.splitBy_of_isChain (List.cons_ne_nil v run) h.chain, List.flatMap_singleton]

/-- A run that is closed is a group of its own. -/
theorem Begun.close {run behind : List Vertex} {prev : Option UInt64} {place : Nat}
    (h : Begun gapMs run prev place)
    (hborder : ∀ u ∈ run.getLast?, ∀ w ∈ behind.head?, linked gapMs u w = false) :
    ((run ++ behind).splitBy (linked gapMs)).flatMap flushRun =
      flushRun run ++ (behind.splitBy (linked gapMs)).flatMap flushRun := by
  rw [List.splitBy_append hborder, List.flatMap_append, h.flushRun_eq]

theorem place_of_vertexOf {rest : List ChartPoint} {place : Nat}
    (hv : v ∈ (rest.zipIdx place).filterMap vertexOf) : place ≤ v.place := by
  obtain ⟨q, hq, hvertex⟩ := List.mem_filterMap.mp hv
  obtain ⟨value, _, rfl⟩ := Option.map_eq_some_iff.mp hvertex
  exact List.le_snd_of_mem_zipIdx hq

/-- The walk over the points draws each maximal run of linked points. -/
theorem drawPoints_eq {run : List Vertex} {prev : Option UInt64} {place : Nat}
    (rest : List ChartPoint) (h : Begun gapMs run prev place) :
    drawPoints gapMs run prev (rest.zipIdx place) =
      ((run ++ (rest.zipIdx place).filterMap vertexOf).splitBy (linked gapMs)).flatMap
        flushRun := by
  induction rest generalizing run prev place with
  | nil => simpa [drawPoints] using h.flushRun_eq
  | cons p rest ih =>
      rw [List.zipIdx_cons, drawPoints]
      cases hvalue : p.value with
      | none =>
          have hvertex : vertexOf (p, place) = none := by simp [vertexOf, hvalue]
          have hborder : ∀ u ∈ run.getLast?,
              ∀ w ∈ ((rest.zipIdx (place + 1)).filterMap vertexOf).head?,
              linked gapMs u w = false := by
            intro u hu w hw
            have hu := (h.ends u hu).1
            have hw := place_of_vertexOf (List.mem_of_head? hw)
            have hfar : w.place ≠ u.place + 1 := by omega
            simp [linked, hfar]
          simp only [List.filterMap_cons, hvertex]
          rw [h.close hborder, ih (Begun.nothing _ _), List.nil_append]
      | some value =>
          let v : Vertex := ⟨place, p.tMs, value, p.provenance⟩
          have hvertex : vertexOf (p, place) = some v := by simp [vertexOf, hvalue, v]
          simp only [List.filterMap_cons, hvertex]
          split
          next hjump =>
            have hborder : ∀ u ∈ run.getLast?,
                ∀ w ∈ (v :: (rest.zipIdx (place + 1)).filterMap vertexOf).head?,
                linked gapMs u w = false := by
              intro u hu w hw
              obtain rfl : v = w := by simpa using hw
              obtain ⟨_, rfl⟩ := h.ends u hu
              have hjump : jumps gapMs (some u.tMs) v.tMs = true := hjump
              simp [linked, hjump]
            rw [h.close hborder, ih (Begun.single v), List.singleton_append]
          next hnear =>
            rw [ih (h.push hnear), List.append_assoc, List.singleton_append]

theorem seriesMarks_eq :
    seriesMarks gapMs points = ((known points).splitBy (linked gapMs)).flatMap flushRun :=
  drawPoints_eq points (Begun.nothing none 0)

theorem dot_mem :
    .dot v ∈ seriesMarks gapMs points ↔ [v] ∈ (known points).splitBy (linked gapMs) := by
  rw [seriesMarks_eq, List.mem_flatMap]
  constructor
  · rintro ⟨run, hrun, hdot⟩
    match run, hdot with
    | [u], hdot =>
        obtain rfl : v = u := by simpa [flushRun] using hdot
        exact hrun
    | u :: x :: run, hdot => simp [flushRun] at hdot
  · intro hrun
    exact ⟨[v], hrun, by simp [flushRun]⟩

theorem polyline_mem {vs : List Vertex} :
    .polyline vs ∈ seriesMarks gapMs points ↔
      ∃ run ∈ (known points).splitBy (linked gapMs), 2 ≤ run.length ∧ vs ∈ run.splitBy alike := by
  rw [seriesMarks_eq, List.mem_flatMap]
  refine exists_congr fun run => and_congr_right fun _ => ?_
  match run with
  | [] => simp [flushRun]
  | [u] => simp [flushRun]
  | u :: x :: run =>
      rw [flushRun, splitRun_eq (List.cons_ne_nil u []) (by simp)]
      · simp
      · exact fun hnil => List.cons_ne_nil x run hnil

end Groups

/-! ## When a chart can be drawn -/

section Drawing

variable {gapMs : Option UInt64} {points : List ChartPoint} {u v w : Vertex}

theorem known_sorted (points : List ChartPoint) :
    (known points).Pairwise (·.place < ·.place) := by
  suffices h : ∀ (rest : List ChartPoint) (place : Nat),
      ((rest.zipIdx place).filterMap vertexOf).Pairwise (·.place < ·.place) from h points 0
  intro rest
  induction rest with
  | nil => exact fun _ => List.Pairwise.nil
  | cons p rest ih =>
      intro place
      rw [List.zipIdx_cons, List.filterMap_cons]
      cases hvertex : vertexOf (p, place) with
      | none => exact ih (place + 1)
      | some v =>
          obtain ⟨value, _, rfl⟩ := Option.map_eq_some_iff.mp hvertex
          exact List.Pairwise.cons (fun w hw => place_of_vertexOf hw) (ih (place + 1))

theorem known_nodup (points : List ChartPoint) : (known points).Nodup :=
  (known_sorted points).imp fun h heq => absurd (congrArg Vertex.place heq) (Nat.ne_of_lt h)

theorem place_of_linked (h : linked gapMs u w = true) : w.place = u.place + 1 := by
  simp only [linked, Bool.and_eq_true, decide_eq_true_eq] at h
  exact h.1

/-- Known points with places that follow each other are neighbours. -/
theorem next_of_linked (hu : u ∈ known points) (hw : w ∈ known points)
    (h : linked gapMs u w = true) : Next (known points) u w := by
  have hplace := place_of_linked h
  have hsorted := known_sorted points
  obtain ⟨front, back, hsplit⟩ := List.append_of_mem hu
  rw [hsplit] at hw hsorted ⊢
  obtain ⟨_, hsorted, hfront⟩ := List.pairwise_append.mp hsorted
  obtain ⟨hback, hsorted⟩ := List.pairwise_cons.mp hsorted
  obtain hw | hw | hw : w ∈ front ∨ w = u ∨ w ∈ back := by simpa using hw
  · have hlt := hfront w hw u List.mem_cons_self
    omega
  · subst hw
    omega
  · cases back with
    | nil => simp at hw
    | cons x back =>
        obtain rfl | hw := List.mem_cons.mp hw
        · exact ⟨front, back, by simp⟩
        · have hx := hback x List.mem_cons_self
          have hlt := (List.pairwise_cons.mp hsorted).1 w hw
          omega

/-- Linked points of one provenance are neighbours in a line. -/
theorem exists_polyline (hu : u ∈ known points) (hw : w ∈ known points)
    (hlinked : linked gapMs u w = true) (halike : u.provenance = w.provenance) :
    ∃ vs : List Vertex, .polyline vs ∈ seriesMarks gapMs points ∧ Next vs u w := by
  obtain ⟨run, hrun, hnext⟩ := next_in_group (next_of_linked hu hw hlinked) hlinked
  obtain ⟨vs, hvs, hnext'⟩ := next_in_group (r := alike) hnext (by simp [alike, halike])
  exact ⟨vs, polyline_mem.mpr ⟨run, hrun, hnext.length_le, hvs⟩, hnext'⟩

/-- Neighbours in a line are linked points of one provenance. -/
theorem linked_of_polyline {vs : List Vertex} (hvs : .polyline vs ∈ seriesMarks gapMs points)
    (h : Next vs u w) :
    u ∈ known points ∧ w ∈ known points ∧ linked gapMs u w = true ∧
      u.provenance = w.provenance := by
  obtain ⟨run, hrun, _, hpart⟩ := polyline_mem.mp hvs
  have hnext := h.within (group_part hpart)
  obtain ⟨hu, hw⟩ := (hnext.within (group_part hrun)).mem
  have halike := related_of_next hpart h
  exact ⟨hu, hw, related_of_next hrun hnext, by simpa [alike] using halike⟩

theorem kin_of_drawn (h : Drawn gapMs points) (hv : v ∈ known points)
    (hlinked : ∃ u ∈ known points, linked gapMs u v = true ∨ linked gapMs v u = true) :
    ∃ u ∈ known points,
      (linked gapMs u v = true ∨ linked gapMs v u = true) ∧ u.provenance = v.provenance := by
  obtain ⟨m, hm, hshows⟩ := h.shown v hv
  cases m with
  | dot x =>
      obtain rfl : x = v := hshows
      have halone := dot_mem.mp hm
      obtain ⟨u, hu, hlinked | hlinked⟩ := hlinked
      · have hnot := not_related_of_singleton (known_nodup points) halone
          (next_of_linked hu hv hlinked) (Or.inr rfl)
        rw [hlinked] at hnot
        cases hnot
      · have hnot := not_related_of_singleton (known_nodup points) halone
          (next_of_linked hv hu hlinked) (Or.inl rfl)
        rw [hlinked] at hnot
        cases hnot
  | polyline vs =>
      obtain ⟨hmem, hlong⟩ := hshows
      obtain ⟨u, hnext | hnext⟩ := exists_next hmem hlong
      · obtain ⟨hu, _, hlinked, halike⟩ := linked_of_polyline hm hnext
        exact ⟨u, hu, Or.inl hlinked, halike⟩
      · obtain ⟨_, hu, hlinked, halike⟩ := linked_of_polyline hm hnext
        exact ⟨u, hu, Or.inr hlinked, halike.symm⟩

theorem shown_of_kin (h : Drawable gapMs points) (hv : v ∈ known points) :
    ∃ m ∈ seriesMarks gapMs points, m.Shows v := by
  by_cases hlinked : ∃ u ∈ known points, linked gapMs u v = true ∨ linked gapMs v u = true
  · obtain ⟨u, hu, hlinked | hlinked, halike⟩ := h.kin v hv hlinked
    · obtain ⟨vs, hvs, hnext⟩ := exists_polyline hu hv hlinked halike
      exact ⟨.polyline vs, hvs, hnext.mem.2, hnext.length_le⟩
    · obtain ⟨vs, hvs, hnext⟩ := exists_polyline hv hu hlinked halike.symm
      exact ⟨.polyline vs, hvs, hnext.mem.1, hnext.length_le⟩
  · have halone : [v] ∈ (known points).splitBy (linked gapMs) := by
      refine singleton_mem_splitBy hv (fun u hnext => ?_) (fun u hnext => ?_)
      · exact Bool.eq_false_iff.mpr fun hu => hlinked ⟨u, hnext.mem.1, Or.inl hu⟩
      · exact Bool.eq_false_iff.mpr fun hu => hlinked ⟨u, hnext.mem.2, Or.inr hu⟩
    exact ⟨.dot v, dot_mem.mpr halone, rfl⟩

theorem drawn_iff : Drawn gapMs points ↔ Drawable gapMs points := by
  constructor
  · intro h
    refine ⟨fun v hv hlinked => kin_of_drawn h hv hlinked, fun u hu w hw hlinked halike => ?_⟩
    obtain ⟨vs, hvs, hnext⟩ := exists_polyline hu hw hlinked halike
    exact (h.honest vs hvs u w hnext).near
  · intro h
    refine ⟨fun v hv => shown_of_kin h hv, fun vs hvs u w hnext => ?_⟩
    obtain ⟨hu, hw, hlinked, halike⟩ := linked_of_polyline hvs hnext
    exact ⟨⟨hu, hw⟩, place_of_linked hlinked, halike, h.near u hu w hw hlinked halike⟩

end Drawing

end PowerForensics.Report
