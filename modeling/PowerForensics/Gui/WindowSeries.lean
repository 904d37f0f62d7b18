import PowerForensics.Gui.Downsample
import PowerForensics.Gui.Evidence
import PowerForensics.Gui.Windows
import Mathlib.Data.Set.Card

/-! # The series of a window

A window of a recording shows its series downsampled to some number of points and says whether
they were. How many points a series keeps is the number of its landmarks, which may be more than
asked for; and what the window says is read off the series that it shows.
-/

namespace PowerForensics.Evidence

open Json Session Extremes Thinning Sessions

/-! ## Series -/

structure Series where
  key : String
  label : String
  unit : String
  points : List TimelinePoint

def toSeries (max : Nat) (source : Series) : Series :=
  { source with points := (downsample source.points max).1 }

def qualityText : SampleQuality → String
  | .fresh => "fresh"
  | .repeatedCached => "repeated"
  | .stale => "stale"
  | .error => "error"
  | .unknown => "unknown"

def point (tMs : UInt64) (t : Telemetry Binary64) : TimelinePoint :=
  ⟨tMs, t.val, t.value.provenance.asStr, qualityText t.quality⟩

def absentPoint (tMs : UInt64) : TimelinePoint := ⟨tMs, none, "unavailable", "unknown"⟩

def seriesWall (t : Telemetry Binary64) (s : SessionData) (monoS : Binary64) : UInt64 :=
  if 0 < t.stamp.wallMillis then t.stamp.wallMillis else monoWall s monoS

/-- The point of a reading with its own wall time, if it has one. -/
def stampedPoint (s : SessionData) (monoS : Binary64) (t : Telemetry Binary64) : TimelinePoint :=
  point (seriesWall t s monoS) t

/-- The busiest of some processes; the last one of those that are equally busy. -/
def busiest (top : List ProcEntry) : Option ProcEntry :=
  (top.foldl (fun best e =>
    match e.cpu.val, best with
    | none, _ => best
    | some v, none => some (e, v)
    | some v, some (b, u) => if v.totalRank < u.totalRank then some (b, u) else some (e, v))
    none).map Prod.fst

def processPoint (s : SessionData) (p : ProcPoint) (e : Option ProcEntry) : TimelinePoint :=
  match e with
  | some e => point (monoWall s p.t) e.cpu
  | none => absentPoint (monoWall s p.t)

def gpuPoint (s : SessionData) (p : GpuPoint) : TimelinePoint :=
  match p.adapters.head? with
  | some a => point (monoWall s p.t) a.totalUtil
  | none => absentPoint (monoWall s p.t)

/-- The series of a session before they are downsampled. -/
def domainSources (s : SessionData) (pid : Option UInt32) : List Series :=
  let battery := fun (f : BatteryPoint → Telemetry Binary64) =>
    s.battery.map fun p => stampedPoint s p.t (f p)
  let cpu := fun (f : CpuPoint → Telemetry Binary64) =>
    s.cpu.map fun p => stampedPoint s p.t (f p)
  let net := fun (f : NetPoint → Telemetry Binary64) =>
    s.net.map fun p => stampedPoint s p.t (f p)
  let storage := fun (f : StoragePoint → Telemetry Binary64) =>
    s.storage.map fun p => stampedPoint s p.t (f p)
  [⟨"battery_discharge_w", "Battery discharge", "W", battery BatteryPoint.discharge⟩,
    ⟨"battery_charge_w", "Battery charge", "W", battery BatteryPoint.charge⟩,
    ⟨"battery_pct", "Battery charge", "%", battery BatteryPoint.pct⟩,
    ⟨"cpu_utility_pct", "CPU utility", "%", cpu CpuPoint.utility⟩,
    ⟨"cpu_pkg_derived_w", "CPU package (derived)", "W", cpu CpuPoint.pkgDerivedW⟩,
    ⟨"cpu_pkg_power_w", "CPU package (measured)", "W", cpu CpuPoint.pkgPowerW⟩,
    ⟨"gpu_util_pct", "GPU utilization", "%", s.gpu.map (gpuPoint s)⟩,
    ⟨"display_brightness_pct", "Display brightness", "%",
      s.display.map fun p => stampedPoint s p.t p.brightness⟩,
    ⟨"net_rx_bps", "Network RX", "B/s", net NetPoint.totalRx⟩,
    ⟨"net_tx_bps", "Network TX", "B/s", net NetPoint.totalTx⟩,
    ⟨"storage_disk_time_pct", "Disk activity", "%", storage StoragePoint.diskTime⟩,
    ⟨"storage_read_bps", "Disk read", "B/s", storage StoragePoint.readBps⟩,
    ⟨"storage_write_bps", "Disk write", "B/s", storage StoragePoint.writeBps⟩,
    ⟨"proc_top_cpu_pct", "Busiest process CPU", "%",
      s.procs.map fun p => processPoint s p (busiest p.top)⟩] ++
  pid.toList.map fun pid =>
    ⟨s!"proc_pid_{pid}_cpu_pct", s!"Process {pid} CPU", "%",
      s.procs.map fun p => processPoint s p (p.top.find? fun e => e.pid = pid)⟩

def domainSeries (s : SessionData) (maxPoints : Nat) (pid : Option UInt32) : List Series :=
  (domainSources s pid).map (toSeries maxPoints)

/-! ## Windows -/

def maxWindowPoints : Nat := 4000

structure SessionWindow where
  path : String
  intervalMs : UInt64
  fromMs : UInt64
  toMs : UInt64
  maxPoints : Nat
  downsampled : Bool
  sourcePoints : Nat
  series : List Series

def effectiveMax (maxPoints : Nat) : Nat :=
  if maxPoints = 0 then maxWindowPoints else Nat.min maxPoints 20000

/-- A window of what was loaded. -/
def windowOf (path : String) (intervalMs fromMs toMs : UInt64) (s : SessionData)
    (maxPoints : Nat) (pid : Option UInt32) : SessionWindow :=
  let max := effectiveMax maxPoints
  let series := domainSeries s max pid
  let sourcePoints := (series.map fun x => x.points.length).foldl Nat.max 0
  { path, intervalMs, fromMs, toMs
    maxPoints := max
    downsampled := max ≤ sourcePoints
    sourcePoints
    series }

/-- A window is read with the checkpoints that are kept, which may change by that. -/
def sessionWindowRange {Path : Type} [DecidableEq Path] (windows : List (Path × WindowIndex))
    (path evicted : Path) (file : SessionFile) (fromMs toMs : UInt64) (maxPoints : Nat)
    (pid : Option UInt32) : Except Failure SessionWindow × List (Path × WindowIndex) :=
  match readHeadTail file.bytes with
  | .error e => (.error (.error e), windows)
  | .ok parts =>
      let interval := ((headerJson parts.head).bind (·.numAt "interval_ms")).getD 0.0
      let (idx, windows) := getWindowIndex windows path evicted file.bytes
      ((loadRegion idx file fromMs toMs).map fun s =>
        windowOf file.path (asU64 (Max.max interval 0.0)) fromMs toMs s maxPoints pid, windows)

/-! ## How many points are kept -/

/-- The landmarks of all buckets of a timeline. -/
def landmarks (points : List TimelinePoint) (max : Nat) : Set Nat :=
  {g | g < points.length ∧
    Landmark (chunk (bucketSize points.length max) (g / bucketSize points.length max) points)
      (g % bucketSize points.length max)}

/-- A series that has fewer points after it was downsampled. -/
def Lost (points : List TimelinePoint) (max : Nat) : Prop :=
  (downsample points max).1.length < points.length

section Lengths

variable {points : List TimelinePoint} {max : Nat}

theorem length_selected {α : Type} {l : List α} {positions : List Nat}
    (hbound : ∀ i ∈ positions, i < l.length) : (selected l positions).length = positions.length := by
  induction positions with
  | nil => rfl
  | cons i positions ih =>
      have hi := hbound i List.mem_cons_self
      have hrest := ih fun j hj => hbound j (List.mem_cons_of_mem _ hj)
      rw [selected] at hrest ⊢
      rw [List.filterMap_cons, List.getElem?_eq_getElem hi]
      simp only [List.length_cons, hrest]

/-- A timeline that is reduced keeps its landmarks. -/
theorem length_downsample (hreduced : ¬Whole points max) :
    (downsample points max).1.length = (landmarks points max).ncard := by
  have hsize := bucketSize_pos max (length_pos_of_reduced hreduced)
  have hpositions := keptPositions_reduced hreduced
  have hascending : (keptPositions points max).Pairwise (· < ·) := by
    rw [hpositions]
    exact ascending_positions picking_picks hsize points
  have hset : landmarks points max = ((keptPositions points max).toFinset : Set Nat) := by
    ext g
    rw [Finset.mem_coe, List.mem_toFinset, hpositions, mem_positions hsize, mem_picks]
    rfl
  rw [downsample_reduced hreduced, thinned_eq_selected hsize, ← hpositions,
    length_selected (keptPositions_bound hreduced), hset, Set.ncard_coe_finset,
    List.toFinset_card_of_nodup (hascending.imp fun h => h.ne)]

theorem length_whole (hwhole : Whole points max) :
    (downsample points max).1.length = points.length := by
  have hshort : max = 0 ∨ points.length ≤ max := hwhole
  rw [downsample, if_pos hshort]

theorem whole_iff (hmax : 0 < max) : Whole points max ↔ points.length ≤ max := by
  unfold Whole
  omega

theorem bound_iff (hmax : 4 ≤ max) : (downsample points max).1.length ≤ max ↔
    points.length ≤ max ∨ (landmarks points max).ncard ≤ max := by
  by_cases hwhole : Whole points max
  · have hshort := (whole_iff (by omega)).mp hwhole
    rw [length_whole hwhole]
    exact ⟨Or.inl, fun _ => hshort⟩
  · have hlong : ¬points.length ≤ max := fun h => hwhole ((whole_iff (by omega)).mpr h)
    rw [length_downsample hwhole]
    exact ⟨Or.inr, fun h => h.resolve_left hlong⟩

theorem lost_iff (hmax : 0 < max) : Lost points max ↔
    max < points.length ∧ (landmarks points max).ncard < points.length := by
  unfold Lost
  by_cases hwhole : Whole points max
  · have hshort := (whole_iff hmax).mp hwhole
    rw [length_whole hwhole]
    omega
  · rw [length_downsample hwhole]
    rw [whole_iff hmax] at hwhole
    omega

theorem full_iff (hmax : 0 < max) : max ≤ (downsample points max).1.length ↔
    points.length = max ∨ max < points.length ∧ max ≤ (landmarks points max).ncard := by
  by_cases hwhole : Whole points max
  · have hshort := (whole_iff hmax).mp hwhole
    rw [length_whole hwhole]
    omega
  · rw [length_downsample hwhole]
    rw [whole_iff hmax] at hwhole
    omega

end Lengths

/-! ## What a window says -/

theorem le_foldl_natMax {bound : Nat} (hbound : 0 < bound) (lengths : List Nat) :
    bound ≤ lengths.foldl Nat.max 0 ↔ ∃ n ∈ lengths, bound ≤ n := by
  have hfrom : ∀ start, bound ≤ lengths.foldl Nat.max start ↔
      bound ≤ start ∨ ∃ n ∈ lengths, bound ≤ n := by
    induction lengths with
    | nil => simp
    | cons n lengths ih =>
        intro start
        rw [List.foldl_cons, ih, List.exists_mem_cons_iff, ← or_assoc]
        exact or_congr_left le_max_iff
  rw [hfrom 0]
  exact or_iff_right (by omega)

theorem effectiveMax_pos (maxPoints : Nat) : 0 < effectiveMax maxPoints := by
  unfold effectiveMax
  split
  · decide
  · next hne => exact lt_min (Nat.pos_of_ne_zero hne) (by decide)

section Flag

variable (path : String) (intervalMs fromMs toMs : UInt64) (s : SessionData) (maxPoints : Nat)
  (pid : Option UInt32)

/-- Some series of the window loses a point. -/
def LosesPoint : Prop := ∃ source ∈ domainSources s pid, Lost source.points (effectiveMax maxPoints)

/-- Some series has as many points as the window may show, or more with so many landmarks. -/
def FillsWindow : Prop :=
  ∃ source ∈ domainSources s pid, source.points.length = effectiveMax maxPoints ∨
    effectiveMax maxPoints < source.points.length ∧
      effectiveMax maxPoints ≤ (landmarks source.points (effectiveMax maxPoints)).ncard

/-- Some series has more points than the window may show, and not all of them are landmarks. -/
def ExceedsWindow : Prop :=
  ∃ source ∈ domainSources s pid, effectiveMax maxPoints < source.points.length ∧
    (landmarks source.points (effectiveMax maxPoints)).ncard < source.points.length

theorem downsampled_iff :
    (windowOf path intervalMs fromMs toMs s maxPoints pid).downsampled = true ↔
      FillsWindow s maxPoints pid := by
  have hmax := effectiveMax_pos maxPoints
  simp only [windowOf, domainSeries, List.map_map, decide_eq_true_eq]
  rw [le_foldl_natMax hmax]
  simp only [List.mem_map, exists_exists_and_eq_and]
  exact exists_congr fun source => and_congr_right fun _ => full_iff hmax

theorem losesPoint_iff : LosesPoint s maxPoints pid ↔ ExceedsWindow s maxPoints pid :=
  exists_congr fun _ => and_congr_right fun _ => lost_iff (effectiveMax_pos maxPoints)

end Flag

/-- A downsampled timeline is within its bound exactly if it was before or its landmarks are; and
a window says exactly then that a series lost a point if a series fills the window in the same
cases in which one exceeds it. -/
theorem downsample_bound (points : List TimelinePoint) (max : Nat) (hmax : 4 ≤ max)
    (path : String) (intervalMs fromMs toMs : UInt64) (s : SessionData) (maxPoints : Nat)
    (pid : Option UInt32) :
    ((downsample points max).1.length ≤ max ↔
      points.length ≤ max ∨ (landmarks points max).ncard ≤ max) ∧
    (((windowOf path intervalMs fromMs toMs s maxPoints pid).downsampled = true ↔
        LosesPoint s maxPoints pid) ↔
      (FillsWindow s maxPoints pid ↔ ExceedsWindow s maxPoints pid)) := by
  refine ⟨bound_iff hmax, ?_⟩
  rw [downsampled_iff, losesPoint_iff]

/-! ## Windows that say the wrong thing -/

/-- A session with some equal readings of the battery, one every second. -/
def steadySession (n : Nat) : SessionData :=
  { (default : SessionData) with
    battery := (List.range n).map fun i =>
      { (default : BatteryPoint) with
        t := .ofNat i, discharge := .measured 6.0 "battery" default } }

def steadyWindow (n : Nat) : SessionWindow := windowOf "" 1000 0 0 (steadySession n) 4 none

theorem steady_windows : (downsample twoGaps 4).1.length = 5 ∧
    (steadyWindow 5).downsampled = false ∧
    ((domainSources (steadySession 5) none).head?.map fun source =>
      (source.points.length, (downsample source.points 4).1.length)) = some (5, 2) ∧
    (steadyWindow 4).downsampled = true ∧
    ∀ source ∈ domainSources (steadySession 4) none, source.points.length ≤ 4 := by
  decide +kernel

/-- A bucket keeps five points where four were asked for; a window that lost a point does not say
so, and one that lost none does. -/
theorem bound_exceeded : ¬(downsample twoGaps 4).1.length ≤ 4 ∧
    ((steadyWindow 5).downsampled = false ∧ LosesPoint (steadySession 5) 4 none) ∧
    (steadyWindow 4).downsampled = true ∧ ¬LosesPoint (steadySession 4) 4 none := by
  obtain ⟨hfive, hsilent, hlost, hloud, hshort⟩ := steady_windows
  refine ⟨by omega, ⟨hsilent, ?_⟩, hloud, ?_⟩
  · obtain ⟨source, hsource, hlengths⟩ := Option.map_eq_some_iff.mp hlost
    obtain ⟨hall, hkept⟩ := Prod.mk.inj hlengths
    refine ⟨source, List.mem_of_head? hsource, ?_⟩
    change (downsample source.points 4).1.length < source.points.length
    omega
  · rintro ⟨source, hsource, hless⟩
    have hle := hshort source hsource
    have hexceeds := (lost_iff (effectiveMax_pos 4)).mp hless
    have hmax : effectiveMax 4 = 4 := rfl
    omega

theorem downsample_bound_twoGaps :
    ((downsample twoGaps 4).1.length ≤ 4 ↔
      twoGaps.length ≤ 4 ∨ (landmarks twoGaps 4).ncard ≤ 4) ∧
    (((windowOf "" 1000 0 0 (steadySession 5) 4 none).downsampled = true ↔
        LosesPoint (steadySession 5) 4 none) ↔
      (FillsWindow (steadySession 5) 4 none ↔ ExceedsWindow (steadySession 5) 4 none)) :=
  downsample_bound twoGaps 4 (by decide) "" 1000 0 0 (steadySession 5) 4 none

end PowerForensics.Evidence
