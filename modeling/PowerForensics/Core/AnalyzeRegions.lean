import PowerForensics.Binary64.Exact
import PowerForensics.Core.AnalyzeChanges
import PowerForensics.Core.AnalyzeRange
import PowerForensics.System.Buckets

/-! # Regions of interest

The span of a session is cut into buckets. High buckets and rises between adjacent ones are
candidates for a closer look, and so are markers and the places where the clocks disagree. Of all
candidates the strongest are reported.
-/

namespace PowerForensics.Analyze

open Stats Session Merging Tiles Neighbours

/-! ## Buckets -/

structure Bucket where
  startMs : UInt64
  endMs : UInt64
  median : Option Binary64
  max : Option Binary64
  known : Nat

/-- A sample that is put into the bucket of an index. -/
def inBucket (startMs endMs bucketMs : UInt64) (i : Nat) (p : Sample) : Bool :=
  (startMs ≤ p.wallMs && p.wallMs < endMs) && ((p.wallMs - startMs) / bucketMs).toNat == i

/-- The greatest value, if there is one. -/
def greatest : List Binary64 → Option Binary64
  | [] => none
  | v :: vs => some (vs.foldl max v)

/-- The bucket of an index. -/
def bucketAt (samples : List Sample) (startMs endMs bucketMs : UInt64) (i : Nat) : Bucket :=
  let vals := (samples.filter (inBucket startMs endMs bucketMs i)).filterMap Sample.value
  { startMs := startMs + .ofNat i * bucketMs
    endMs := min (startMs + (.ofNat i + 1) * bucketMs) endMs
    median := percentileSorted vals 50.0
    max := greatest vals
    known := vals.length }

def bucketize (samples : List Sample) (startMs endMs bucketMs : UInt64) : List Bucket :=
  if endMs ≤ startMs ∨ bucketMs = 0 then []
  else
    let count := max (count startMs.toNat endMs.toNat bucketMs.toNat) 1
    (List.range count).map (bucketAt samples startMs endMs bucketMs)

section Buckets

variable {startMs endMs bucketMs : UInt64} {samples : List Sample}

/-- A known sample of a part of the span. The end of the span belongs to the last part. -/
def within (endMs : UInt64) (b : Bucket) (p : Sample) : Bool :=
  p.value.isSome &&
    (b.startMs ≤ p.wallMs && (p.wallMs < b.endMs || p.wallMs == endMs && b.endMs == endMs))

/-- The buckets of a span follow one another, each counts the known samples of its part, and
together they count those of the span. -/
structure Lossless (samples : List Sample) (startMs endMs : UInt64) (buckets : List Bucket) :
    Prop where
  tiled : Tiled startMs.toNat (buckets.map fun b => (b.startMs.toNat, b.endMs.toNat)) endMs.toNat
  own : ∀ b ∈ buckets, b.known = samples.countP (within endMs b)
  total : (buckets.map Bucket.known).foldr (· + ·) 0 =
    samples.countP fun p => p.value.isSome && (startMs ≤ p.wallMs && p.wallMs ≤ endMs)

/-- The last bucket ends within the clock's range before it is cut. -/
def InClock (startMs endMs bucketMs : UInt64) : Prop :=
  startMs.toNat + count startMs.toNat endMs.toNat bucketMs.toNat * bucketMs.toNat < 2 ^ 64

theorem toNat_bucketStart (hwidth : 0 < bucketMs.toNat) {i : Nat}
    (hi : i < count startMs.toNat endMs.toNat bucketMs.toNat) :
    (startMs + .ofNat i * bucketMs).toNat = startMs.toNat + i * bucketMs.toNat := by
  have hlt := (lt_count hwidth).mp hi
  have hend := endMs.toNat_lt
  have hle := Nat.le_mul_of_pos_right i hwidth
  rw [UInt64.toNat_add, UInt64.toNat_mul, UInt64.toNat_ofNat', Nat.mod_eq_of_lt (a := i) (by omega),
    Nat.mod_eq_of_lt (a := i * _) (by omega), Nat.mod_eq_of_lt (by omega)]

theorem toNat_bucketEnd (hwidth : 0 < bucketMs.toNat) {i : Nat}
    (hi : i < count startMs.toNat endMs.toNat bucketMs.toNat) :
    (min (startMs + (.ofNat i + 1) * bucketMs) endMs).toNat =
      min ((startMs.toNat + (i + 1) * bucketMs.toNat) % 2 ^ 64) endMs.toNat := by
  have hlt := (lt_count hwidth).mp hi
  have hend := endMs.toNat_lt
  have hle := Nat.le_mul_of_pos_right i hwidth
  have hsucc : (UInt64.ofNat i + 1).toNat = i + 1 := by
    rw [UInt64.toNat_add, UInt64.toNat_ofNat', UInt64.toNat_one]
    omega
  rw [toNat_min, UInt64.toNat_add, UInt64.toNat_mul, hsucc, Nat.add_mod_mod]

theorem count_pos (hspan : startMs < endMs) (hwidth : 0 < bucketMs.toNat) :
    0 < count startMs.toNat endMs.toNat bucketMs.toNat := by
  rw [lt_count hwidth, Nat.zero_mul, Nat.add_zero]
  exact UInt64.lt_iff_toNat_lt.mp hspan

theorem bucketize_eq (samples : List Sample) (hspan : startMs < endMs)
    (hwidth : 0 < bucketMs.toNat) : bucketize samples startMs endMs bucketMs =
      (List.range (count startMs.toNat endMs.toNat bucketMs.toNat)).map
        (bucketAt samples startMs endMs bucketMs) := by
  have hpos := count_pos hspan hwidth
  have hnot : ¬(endMs ≤ startMs ∨ bucketMs = 0) := by
    rw [not_or, UInt64.not_le]
    refine ⟨hspan, fun hzero => ?_⟩
    rw [hzero] at hwidth
    exact absurd hwidth (by decide)
  rw [bucketize, if_neg hnot, max_eq_left hpos]

/-- A bucket counts the known samples that are put into it. -/
theorem known_bucketAt (i : Nat) : (bucketAt samples startMs endMs bucketMs i).known =
    samples.countP fun p => (p.value.isSome && (startMs ≤ p.wallMs && p.wallMs < endMs)) &&
      ((p.wallMs - startMs) / bucketMs).toNat == i := by
  rw [bucketAt]
  dsimp only
  rw [List.length_filterMap_eq_countP, List.countP_filter]
  refine List.countP_congr fun p _ => ?_
  simp only [inBucket, Bool.and_assoc]

/-- A sample of the span falls into one of its buckets. -/
theorem index_lt_count (hwidth : 0 < bucketMs.toNat) {p : Sample} (hstart : startMs ≤ p.wallMs)
    (hend : p.wallMs < endMs) : ((p.wallMs - startMs) / bucketMs).toNat <
      count startMs.toNat endMs.toNat bucketMs.toNat := by
  have hle := UInt64.le_iff_toNat_le.mp hstart
  have hlt := UInt64.lt_iff_toNat_lt.mp hend
  have hmul := Nat.div_mul_le_self (p.wallMs.toNat - startMs.toNat) bucketMs.toNat
  rw [lt_count hwidth, UInt64.toNat_div, UInt64.toNat_sub_of_le _ _ hstart]
  omega

theorem total_bucketize (samples : List Sample) (hspan : startMs < endMs)
    (hwidth : 0 < bucketMs.toNat) :
    ((bucketize samples startMs endMs bucketMs).map Bucket.known).foldr (· + ·) 0 =
      samples.countP fun p => p.value.isSome && (startMs ≤ p.wallMs && p.wallMs < endMs) := by
  have hknown : (fun i => (bucketAt samples startMs endMs bucketMs i).known) = fun i =>
      samples.countP fun p => (p.value.isSome && (startMs ≤ p.wallMs && p.wallMs < endMs)) &&
        ((p.wallMs - startMs) / bucketMs).toNat == i := by
    funext i
    exact known_bucketAt i
  rw [bucketize_eq samples hspan hwidth, List.map_map]
  change ((List.range _).map fun i => (bucketAt samples startMs endMs bucketMs i).known).foldr
    (· + ·) 0 = _
  rw [hknown, foldr_countP]
  refine List.countP_congr fun p _ => ?_
  rw [Bool.and_eq_true, and_iff_left_iff_imp]
  intro hin
  simp only [Bool.and_eq_true, decide_eq_true_eq] at hin ⊢
  exact index_lt_count hwidth hin.2.1 hin.2.2

/-- Where the clock is in range, the buckets are tiles. -/
theorem bucket_tile (samples : List Sample) (hwidth : 0 < bucketMs.toNat)
    (hclock : InClock startMs endMs bucketMs) {i : Nat}
    (hi : i < count startMs.toNat endMs.toNat bucketMs.toNat) :
    ((bucketAt samples startMs endMs bucketMs i).startMs.toNat,
        (bucketAt samples startMs endMs bucketMs i).endMs.toNat) =
      tile startMs.toNat endMs.toNat bucketMs.toNat i := by
  have hle : (i + 1) * bucketMs.toNat ≤
      count startMs.toNat endMs.toNat bucketMs.toNat * bucketMs.toNat :=
    Nat.mul_le_mul_right _ hi
  rw [InClock] at hclock
  simp only [bucketAt, toNat_bucketStart hwidth hi, toNat_bucketEnd hwidth hi, tile]
  rw [Nat.mod_eq_of_lt (by omega)]

/-- Apart from the end of the span, a sample is put into the bucket it lies in. -/
theorem inBucket_iff (hwidth : 0 < bucketMs.toNat) {i : Nat} {b : Bucket}
    (htile : (b.startMs.toNat, b.endMs.toNat) =
      tile startMs.toNat endMs.toNat bucketMs.toNat i) {p : Sample} (hne : p.wallMs ≠ endMs) :
    (startMs ≤ p.wallMs && p.wallMs < endMs &&
        ((p.wallMs - startMs) / bucketMs).toNat == i) = true ↔
      (b.startMs ≤ p.wallMs &&
        (p.wallMs < b.endMs || p.wallMs == endMs && b.endMs == endMs)) = true := by
  have hother : (p.wallMs == endMs) = false := beq_false_of_ne hne
  obtain ⟨hstart, hend⟩ := Prod.mk.inj htile
  rw [hother, Bool.false_and, Bool.or_false]
  simp only [Bool.and_eq_true, decide_eq_true_eq, beq_iff_eq]
  constructor
  · rintro ⟨⟨hfrom, hto⟩, hindex⟩
    rw [UInt64.toNat_div, UInt64.toNat_sub_of_le _ _ hfrom] at hindex
    have hin := (mem_tile_iff hwidth (UInt64.lt_iff_toNat_lt.mp hto)).mp
      ⟨UInt64.le_iff_toNat_le.mp hfrom, hindex⟩
    rw [UInt64.le_iff_toNat_le, UInt64.lt_iff_toNat_lt, hstart, hend]
    exact hin
  · rintro ⟨hfrom, hto⟩
    rw [UInt64.le_iff_toNat_le, hstart] at hfrom
    rw [UInt64.lt_iff_toNat_lt, hend] at hto
    have hlast : p.wallMs.toNat < endMs.toNat := hto.trans_le (Nat.min_le_right _ _)
    obtain ⟨hle, hindex⟩ := (mem_tile_iff hwidth hlast).mpr ⟨hfrom, hto⟩
    have hle := UInt64.le_iff_toNat_le.mpr hle
    rw [UInt64.toNat_div, UInt64.toNat_sub_of_le _ _ hle]
    exact ⟨⟨hle, UInt64.lt_iff_toNat_lt.mpr hlast⟩, hindex⟩

/-- Buckets that tile the span end within the range of the clock. -/
theorem inClock_of_tiled (samples : List Sample) (hspan : startMs < endMs)
    (hwidth : 0 < bucketMs.toNat)
    (htiled : Tiled startMs.toNat ((bucketize samples startMs endMs bucketMs).map fun b =>
      (b.startMs.toNat, b.endMs.toNat)) endMs.toNat) : InClock startMs endMs bucketMs := by
  -- the end of the last bucket would have wrapped around
  by_contra hclock
  obtain ⟨n, hn⟩ := Nat.exists_eq_succ_of_ne_zero (count_pos hspan hwidth).ne'
  have hin : n < count startMs.toNat endMs.toNat bucketMs.toNat := by omega
  rw [bucketize_eq samples hspan hwidth, hn, List.range_succ, List.map_append, List.map_append]
    at htiled
  have hend := end_of_tiled htiled
  rw [bucketAt] at hend
  dsimp only at hend
  rw [toNat_bucketEnd hwidth hin] at hend
  have hlt := (lt_count hwidth).mp hin
  have hmul : (n + 1) * bucketMs.toNat = n * bucketMs.toNat + bucketMs.toNat :=
    Nat.succ_mul n _
  have hbucket := bucketMs.toNat_lt
  have hrange := endMs.toNat_lt
  rw [InClock, hn, Nat.succ_eq_add_one] at hclock
  omega

theorem tiled_bucketize (samples : List Sample) (hspan : startMs < endMs)
    (hwidth : 0 < bucketMs.toNat) (hclock : InClock startMs endMs bucketMs) :
    Tiled startMs.toNat ((bucketize samples startMs endMs bucketMs).map fun b =>
      (b.startMs.toNat, b.endMs.toNat)) endMs.toNat := by
  have htiles := tiled_count hwidth (UInt64.le_iff_toNat_le.mp (UInt64.le_of_lt hspan))
  have hsame : (List.range (count startMs.toNat endMs.toNat bucketMs.toNat)).map
      ((fun b : Bucket => (b.startMs.toNat, b.endMs.toNat)) ∘
        bucketAt samples startMs endMs bucketMs) = (List.range (count startMs.toNat endMs.toNat
          bucketMs.toNat)).map (tile startMs.toNat endMs.toNat bucketMs.toNat) :=
    List.map_congr_left fun i hi => bucket_tile samples hwidth hclock (List.mem_range.mp hi)
  rw [bucketize_eq samples hspan hwidth, List.map_map, hsame]
  exact htiles

/-- Without its end a span has all its known samples exactly if none of them lies there. -/
theorem count_before_end_iff (samples : List Sample) (hspan : startMs < endMs) :
    (samples.countP fun p => p.value.isSome && (startMs ≤ p.wallMs && p.wallMs < endMs)) =
        (samples.countP fun p => p.value.isSome && (startMs ≤ p.wallMs && p.wallMs ≤ endMs)) ↔
      ∀ p ∈ samples, p.value.isSome → p.wallMs ≠ endMs := by
  constructor
  · intro hcount p hp hknown hwall
    rw [List.countP_eq_length_filter, List.countP_eq_length_filter] at hcount
    have hsub := List.monotone_filter_right samples fun p (hin : (p.value.isSome &&
        (startMs ≤ p.wallMs && p.wallMs < endMs)) = true) => by
      simp only [Bool.and_eq_true, decide_eq_true_eq] at hin
      have hle : p.wallMs ≤ endMs := UInt64.le_of_lt hin.2.2
      show (p.value.isSome && (startMs ≤ p.wallMs && p.wallMs ≤ endMs)) = true
      simp [hin.1, hin.2.1, hle]
    have hall : p ∈ samples.filter fun p =>
        p.value.isSome && (startMs ≤ p.wallMs && p.wallMs ≤ endMs) := by
      rw [List.mem_filter, hwall]
      simp [hp, hknown, UInt64.le_of_lt hspan]
    rw [← hsub.eq_of_length hcount, List.mem_filter, hwall] at hall
    simp at hall
  · intro hnone
    apply List.countP_congr
    intro p hp
    have hne := hnone p hp
    simp only [Bool.and_eq_true, decide_eq_true_eq]
    constructor
    · exact fun h => ⟨h.1, h.2.1, UInt64.le_of_lt h.2.2⟩
    · exact fun h => ⟨h.1, h.2.1, UInt64.lt_of_le_of_ne h.2.2 (hne h.1)⟩

/-- No sample is lost exactly if the last bucket ends within the range of the clock and no known
sample lies at the end of the span. -/
theorem bucketize_lossless_iff (samples : List Sample) (hspan : startMs < endMs)
    (hwidth : 0 < bucketMs) :
    Lossless samples startMs endMs (bucketize samples startMs endMs bucketMs) ↔
      InClock startMs endMs bucketMs ∧ ∀ p ∈ samples, p.value.isSome → p.wallMs ≠ endMs := by
  have hwidth : 0 < bucketMs.toNat := UInt64.lt_iff_toNat_lt.mp hwidth
  have htotal := total_bucketize samples hspan hwidth
  constructor
  · intro h
    refine ⟨inClock_of_tiled samples hspan hwidth h.tiled, ?_⟩
    rw [← count_before_end_iff samples hspan, ← htotal]
    exact h.total
  · rintro ⟨hclock, hnone⟩
    constructor
    · exact tiled_bucketize samples hspan hwidth hclock
    · intro b hb
      rw [bucketize_eq samples hspan hwidth, List.mem_map] at hb
      obtain ⟨i, hi, rfl⟩ := hb
      rw [known_bucketAt]
      apply List.countP_congr
      intro p hp
      rw [Bool.and_assoc, within]
      cases hknown : p.value.isSome with
      | false => simp
      | true =>
          simp only [Bool.true_and]
          exact inBucket_iff hwidth (bucket_tile samples hwidth hclock (List.mem_range.mp hi))
            (hnone p hp hknown)
    · rw [htotal, count_before_end_iff samples hspan]
      exact hnone

/-- A minute of readings, one of them without a value and the last before the end. -/
def aMinute : List Sample :=
  [⟨1000, some 5.0, .measured⟩, ⟨16000, none, .unavailable⟩, ⟨31000, some 7.0, .measured⟩,
    ⟨60999, some 6.0, .measured⟩]

theorem bucketize_lossless_minute :
    (bucketize aMinute 1000 61000 30000).map Bucket.known = [1, 2] ∧
      Lossless aMinute 1000 61000 (bucketize aMinute 1000 61000 30000) := by
  refine ⟨by decide +kernel, (bucketize_lossless_iff aMinute (by decide) (by decide)).mpr ⟨?_, ?_⟩⟩
  · unfold InClock
    decide
  · intro p hp _
    revert p
    decide

/-- A session of two readings. -/
def twoReadings : SessionData :=
  { (default : SessionData) with
    wallBaseMs := 1000
    battery := [tenWatts 0.0 0, tenWatts 1.0 0] }

/-- The last reading of a session is in no bucket of its span. -/
theorem last_reading_lost :
    let samples := twoReadings.battery.map fun p => sample twoReadings p.discharge p.t
    ¬Lossless samples (sessionSpanMs twoReadings).1 (sessionSpanMs twoReadings).2
      (bucketize samples (sessionSpanMs twoReadings).1 (sessionSpanMs twoReadings).2 30000) := by
  intro samples h
  have htotal := h.total
  exact absurd htotal (by decide +kernel)

end Buckets

/-! ## Regions -/

inductive RegionKind where
  | peak
  | sustainedIncrease
  | marker
  | discontinuity
  deriving DecidableEq

structure InterestingRegion where
  kind : RegionKind
  domain : String
  label : String
  startMs : UInt64
  endMs : UInt64
  score : Binary64
  detail : String

def twoPlaces (x : Binary64) : String := .ofList (x.fixed 2)

/-- What is sought in a metric, and how far a value must rise above another. -/
structure Scan where
  key : String
  domain : String
  peakLabel : String
  riseThreshold : Binary64
  relThreshold : Binary64

def scans : List Scan :=
  [⟨"battery_discharge_w", "power", "Power peak", 1.0, 0.25⟩,
    ⟨"cpu_utility_pct", "cpu", "CPU activity peak", 10.0, 0.2⟩,
    ⟨"gpu_util_pct", "gpu", "GPU activity peak", 5.0, 0.2⟩]

/-- A difference that is large enough, on its own and against the lower value. -/
def Scan.rises (c : Scan) (base delta : Binary64) : Bool :=
  c.riseThreshold ≤ delta && (base.abs < 1e-9 || c.relThreshold ≤ delta / base.abs)

def Scan.peaks (c : Scan) (overall : Binary64) (buckets : List Bucket) : List InterestingRegion :=
  let sorted := stableSort (fun b : Bucket => -(b.max.getD (.infinity true)).totalRank)
    (buckets.filter fun b => 2 ≤ b.known)
  (sorted.take 4).filterMap fun b =>
    let max := b.max.getD 0.0
    if c.rises overall (max - overall) then
      some
        { kind := .peak
          domain := c.domain
          label := c.peakLabel
          startMs := b.startMs
          endMs := b.endMs
          score := max
          detail := s!"peak {twoPlaces max} vs session median {twoPlaces overall} over this bucket" }
    else none

/-- Adjacent buckets whose medians rise. -/
def Scan.increases (c : Scan) (buckets : List Bucket) : List InterestingRegion :=
  let found := (neighbours buckets).filterMap fun w => do
    let a ← w.1.median
    let b ← w.2.median
    if c.rises a (b - a) then some (w, b - a) else none
  ((stableSort (fun r : (Bucket × Bucket) × Binary64 => -r.2.totalRank) found).take 2).map fun r =>
    { kind := .sustainedIncrease
      domain := c.domain
      label := s!"{c.peakLabel} rise"
      startMs := r.1.1.startMs
      endMs := r.1.2.endMs
      score := r.2
      detail := s!"sustained increase of {twoPlaces r.2} between adjacent buckets" }

def Scan.regions (c : Scan) (series : List MetricSeries) (startMs endMs bucketMs : UInt64) :
    List InterestingRegion :=
  match metricOf series c.key with
  | none => []
  | some m =>
      match Stats.median (m.samples.filterMap Sample.value) with
      | none => []
      | some overall =>
          let buckets := bucketize m.samples startMs endMs bucketMs
          c.peaks overall buckets ++ c.increases buckets

/-- Equal up to the case of the letters without accents. -/
def eqIgnoreAsciiCase (a b : String) : Bool := a.toList.map Char.toLower = b.toList.map Char.toLower

def markerRegion (e : EventRec) : InterestingRegion where
  kind := .marker
  domain := "events"
  label := s!"Marker: {e.detail}"
  startMs := e.wallMs
  endMs := e.wallMs
  score := 50.0
  detail := s!"user marker at {e.wallMs.toNat}"

def maxRegions : Nat := 24

/-- The battery readings of the span, with both clocks. -/
def spanReadings (s : SessionData) : List (BatteryReading Binary64) :=
  (batteryReadings s).filter (BatteryReading.inRange (sessionSpanMs s).1 (sessionSpanMs s).2)

def spanDiscontinuities (s : SessionData) (intervalMs : UInt64) : List (Discontinuity Binary64) :=
  let clocks := batteryClocks (batteryReadings s) (sessionSpanMs s).1 (sessionSpanMs s).2
  discontinuities clocks.times clocks.walls (energyMaxGapSecs intervalMs.toNat)
    Store.maxClockSkewSecs

def discontinuityRegion (s : SessionData) (d : Discontinuity Binary64) : InterestingRegion :=
  let clocks := batteryClocks (batteryReadings s) (sessionSpanMs s).1 (sessionSpanMs s).2
  let atMs := at_ clocks.times (d.index + 1) * 1000.0
  let wall := saturatingAdd (sessionSpanMs s).1 (.ofNat (atMs.toUnsigned 64))
  { kind := .discontinuity
    domain := "power"
    label := s!"Clock discontinuity ({d.kind.asStr})"
    startMs := saturatingSub wall 1000
    endMs := saturatingAdd wall 1000
    score := max d.unobservedSecs 1.0
    detail := s!"{d.kind.asStr} clock step; {String.ofList (d.unobservedSecs.fixed 0)}s not integrated" }

/-- Every candidate of a session. -/
def regionCandidates (s : SessionData) (intervalMs : UInt64) : List InterestingRegion :=
  let (startMs, endMs) := sessionSpanMs s
  let span := saturatingSub endMs startMs
  if span = 0 then []
  else
    let bucketMs := max (span / 60) 30000
    let series := metricSeries s
    scans.flatMap (fun c => c.regions series startMs endMs bucketMs) ++
      (s.events.filter fun e => eqIgnoreAsciiCase e.kind "marker").map markerRegion ++
      (spanDiscontinuities s intervalMs).map (discontinuityRegion s)

/-- The score backwards, then the beginning. -/
def regionKey (r : InterestingRegion) : Int ×ₗ Nat := toLex (-r.score.rank, r.startMs.toNat)

def interestingRegions (s : SessionData) (intervalMs : UInt64) : List InterestingRegion :=
  (stableSort regionKey (regionCandidates s intervalMs)).take maxRegions

/-! ## Where the clocks disagree -/

section Located

variable {s : SessionData} {intervalMs : UInt64} {d : Discontinuity Binary64}

/-- The reading after a step. -/
def readingAfter (s : SessionData) (d : Discontinuity Binary64) :
    Option (BatteryReading Binary64) :=
  (spanReadings s)[d.index + 1]?

theorem exists_readingAfter (hd : d ∈ spanDiscontinuities s intervalMs) :
    ∃ r, readingAfter s d = some r := by
  have hlength : (batteryClocks (batteryReadings s) (sessionSpanMs s).1
      (sessionSpanMs s).2).times.length = (spanReadings s).length := by
    simp [batteryClocks, spanReadings]
  rw [spanDiscontinuities, discontinuities, hlength] at hd
  split at hd
  · cases hd
  next hmany =>
    obtain ⟨i, hi, hat⟩ := List.mem_filterMap.mp hd
    have hindex : d.index = i := by
      rw [discontinuityAt] at hat
      obtain ⟨kind, -, rfl⟩ := Option.map_eq_some_iff.mp hat
      rfl
    have hlt : d.index + 1 < (spanReadings s).length := by
      have hrange := List.mem_range.mp hi
      omega
    exact ⟨_, List.getElem?_eq_getElem hlt⟩

/-- A reading has its own wall clock or the one that follows from the monotonic clock. -/
theorem wall_of_readingAfter {r : BatteryReading Binary64} (hr : readingAfter s d = some r) :
    at_ (batteryClocks (batteryReadings s) (sessionSpanMs s).1 (sessionSpanMs s).2).times
      (d.index + 1) = r.time := by
  rw [readingAfter, spanReadings] at hr
  rw [at_, batteryClocks, List.getElem?_map, hr]
  rfl

theorem toNat_monoWall (s : SessionData) (t : Binary64) : (monoWall s t).toNat =
    min (s.wallBaseMs.toNat + (t * 1000.0).toUnsigned 64) (2 ^ 64 - 1) :=
  UInt64.toNat_ofNat_of_lt' (by rw [UInt64.size]; omega)

/-- The region of a step is around the wall clock that follows from the monotonic clock. -/
theorem region_monoWall {r : BatteryReading Binary64} (hr : readingAfter s d = some r) :
    (discontinuityRegion s d).startMs = saturatingSub (monoWall s r.time) 1000 ∧
      (discontinuityRegion s d).endMs = saturatingAdd (monoWall s r.time) 1000 := by
  have hwall : saturatingAdd (sessionSpanMs s).1 (.ofNat ((r.time * 1000.0).toUnsigned 64)) =
      monoWall s r.time := by
    have hlt := Binary64.toUnsigned_lt 64 (r.time * 1000.0)
    rw [← UInt64.toNat_inj, toNat_saturatingAdd, toNat_monoWall,
      UInt64.toNat_ofNat_of_lt' (by rw [UInt64.size]; omega)]
    rfl
  rw [discontinuityRegion]
  dsimp only
  rw [wall_of_readingAfter hr, hwall]
  exact ⟨rfl, rfl⟩

def Contains (region : InterestingRegion) (wall : UInt64) : Prop :=
  region.startMs ≤ wall ∧ wall ≤ region.endMs

/-- The wall clock of a reading is within a second of what follows from the monotonic clock. -/
def Together (s : SessionData) (r : BatteryReading Binary64) : Prop :=
  (monoWall s r.time).toNat ≤ r.wallMs.toNat + 1000 ∧
    r.wallMs.toNat ≤ (monoWall s r.time).toNat + 1000

theorem contains_iff {r : BatteryReading Binary64} (hr : readingAfter s d = some r) :
    Contains (discontinuityRegion s d) r.wallMs ↔ Together s r := by
  obtain ⟨hstart, hend⟩ := region_monoWall hr
  have hwall := r.wallMs.toNat_lt
  have hthousand : (1000 : UInt64).toNat = 1000 := rfl
  rw [Contains, hstart, hend, UInt64.le_iff_toNat_le, UInt64.le_iff_toNat_le,
    toNat_saturatingSub, toNat_saturatingAdd, hthousand, Together]
  omega

/-- A candidate that is not reported: the stronger ones, and the equal ones in front of it, are
as many as are reported. -/
def Outranked (candidates : List InterestingRegion) (region : InterestingRegion) : Prop :=
  region ∉ (candidates.filter fun q => regionKey q = regionKey region).take
    (maxRegions - candidates.countP fun q => regionKey q < regionKey region)

theorem mem_interestingRegions {region : InterestingRegion} :
    region ∈ interestingRegions s intervalMs ↔
      ¬Outranked (regionCandidates s intervalMs) region := by
  rw [interestingRegions, mem_take_stableSort, Outranked, not_not]

/-- Every reported step is located exactly if the steps at which the clocks are apart by more
than a second are outranked. -/
theorem regions_located_iff (s : SessionData) (intervalMs : UInt64) :
    (∀ d ∈ spanDiscontinuities s intervalMs,
      discontinuityRegion s d ∈ interestingRegions s intervalMs →
        ∃ r, readingAfter s d = some r ∧ Contains (discontinuityRegion s d) r.wallMs) ↔
      ∀ d ∈ spanDiscontinuities s intervalMs, ∀ r ∈ readingAfter s d, ¬Together s r →
        Outranked (regionCandidates s intervalMs) (discontinuityRegion s d) := by
  refine forall₂_congr fun d hd => ?_
  obtain ⟨r, hr⟩ := exists_readingAfter hd
  rw [mem_interestingRegions]
  constructor
  · intro h r' hr' hapart
    by_contra hreported
    obtain ⟨q, hq, hcontains⟩ := h hreported
    obtain rfl := Option.some.inj (hq.symm.trans hr')
    exact hapart ((contains_iff hr').mp hcontains)
  · intro h hreported
    refine ⟨r, hr, (contains_iff hr).mpr ?_⟩
    by_contra hapart
    exact hreported (h r hr hapart)

/-- The wall clock is set forward by a quarter of an hour. -/
def forwardSession : SessionData :=
  { (default : SessionData) with
    wallBaseMs := 1000
    battery := [tenWatts 0.0 1000, tenWatts 1.0 902000] }

/-- Where there are few candidates, all of them are reported. -/
theorem reported_of_few {region : InterestingRegion}
    (hfew : (regionCandidates s intervalMs).length ≤ maxRegions)
    (hregion : region ∈ regionCandidates s intervalMs) :
    region ∈ interestingRegions s intervalMs := by
  have hperm := stableSort_perm regionKey (regionCandidates s intervalMs)
  rw [interestingRegions, List.take_of_length_le (hperm.length_eq.trans_le hfew)]
  exact hperm.mem_iff.mpr hregion

theorem discontinuityRegion_mem
    (hspan : saturatingSub (sessionSpanMs s).2 (sessionSpanMs s).1 ≠ 0)
    (hd : d ∈ spanDiscontinuities s intervalMs) :
    discontinuityRegion s d ∈ regionCandidates s intervalMs := by
  rw [regionCandidates]
  dsimp only
  rw [if_neg hspan]
  exact List.mem_append_right _ (List.mem_map_of_mem hd)

/-- The region of the step lies a quarter of an hour before the reading. -/
theorem step_misplaced :
    ¬∀ d ∈ spanDiscontinuities forwardSession 1000,
      discontinuityRegion forwardSession d ∈ interestingRegions forwardSession 1000 →
        ∃ r, readingAfter forwardSession d = some r ∧
          Contains (discontinuityRegion forwardSession d) r.wallMs := by
  intro h
  have hconcrete : (∃ d ∈ spanDiscontinuities forwardSession 1000, d.index = 0) ∧
      (regionCandidates forwardSession 1000).length ≤ maxRegions ∧
      saturatingSub (sessionSpanMs forwardSession).2 (sessionSpanMs forwardSession).1 ≠ 0 ∧
      ∀ r ∈ (spanReadings forwardSession)[1]?,
        ¬r.wallMs.toNat ≤ (monoWall forwardSession r.time).toNat + 1000 := by
    decide +kernel
  obtain ⟨⟨d, hd, hindex⟩, hfew, hspan, hapart⟩ := hconcrete
  obtain ⟨r, hr, hcontains⟩ := h d hd (reported_of_few hfew (discontinuityRegion_mem hspan hd))
  have hsecond : r ∈ (spanReadings forwardSession)[1]? := by
    rw [readingAfter, hindex] at hr
    exact hr
  exact hapart r hsecond ((contains_iff hr).mp hcontains).2

end Located

end PowerForensics.Analyze
