import Mathlib.Data.Char
import Mathlib.Data.List.Lex
import Mathlib.Data.Prod.Lex
import Mathlib.Order.Lex
import PowerForensics.Core.AnalyzeMetrics
import PowerForensics.System.Merging

/-! # Changes in a range

The metrics of a range are compared with what was recorded directly before and after it. A
difference that passes its threshold, with samples enough on both sides, is a change. Changes
of the power come first, then it goes by confidence.
-/

namespace PowerForensics.Analyze

open Stats Session Merging

/-! ## Windows -/

def saturatingSub (a b : UInt64) : UInt64 := .ofNat (a.toNat - b.toNat)

def saturatingAdd (a b : UInt64) : UInt64 := .ofNat (min (a.toNat + b.toNat) (2 ^ 64 - 1))

/-- The edges of the windows: where the one before begins, the range itself, and where the one
after ends. -/
def contextWindows (s : SessionData) (fromMs toMs : UInt64) : UInt64 × UInt64 × UInt64 × UInt64 :=
  let dur := max (saturatingSub toMs fromMs) 1
  let ctx := min (max dur 10000) (5 * 60000)
  let sessionStart := s.wallBaseMs
  let sessionEnd := (sessionEndWall s).getD toMs
  let beforeStart := max (saturatingSub fromMs ctx) sessionStart
  let afterEnd := min (saturatingAdd toMs ctx) (max sessionEnd toMs)
  (beforeStart, fromMs, toMs, afterEnd)

structure WindowStats where
  before : Stat
  during : Stat
  after : Stat

def statIn (m : MetricSeries) (fromMs toMs : UInt64) : Stat := .of (windowSamples m fromMs toMs)

def windowStats (s : SessionData) (fromMs toMs : UInt64) (m : MetricSeries) : WindowStats :=
  let (b0, b1, a0, a1) := contextWindows s fromMs toMs
  ⟨statIn m b0 b1, statIn m b1 a0, statIn m a0 a1⟩

def windowedMetrics (s : SessionData) (fromMs toMs : UInt64) : List (String × WindowStats) :=
  (metricSeries s).map fun m => (m.key, windowStats s fromMs toMs m)

/-! ## Changes -/

structure ChangeDef where
  key : String
  thresholdAbs : Binary64
  thresholdRel : Option Binary64

def changeDefs : List ChangeDef :=
  [⟨"battery_discharge_w", 0.5, some 0.10⟩,
    ⟨"cpu_utility_pct", 5.0, none⟩,
    ⟨"cpu_pkg_power_w", 0.5, none⟩,
    ⟨"cpu_pkg_derived_w", 0.5, none⟩,
    ⟨"cpu_c3_pct", 10.0, none⟩,
    ⟨"gpu_util_pct", 5.0, none⟩,
    ⟨"display_brightness_pct", 5.0, none⟩,
    ⟨"net_rx_bps", 64.0 * 1024.0, some 0.5⟩,
    ⟨"net_tx_bps", 64.0 * 1024.0, some 0.5⟩,
    ⟨"storage_disk_time_pct", 5.0, none⟩,
    ⟨"storage_read_bps", 256.0 * 1024.0, some 0.5⟩,
    ⟨"storage_write_bps", 256.0 * 1024.0, some 0.5⟩]

inductive Direction where
  | increased
  | decreased
  | appeared
  deriving DecidableEq

inductive ChangeConfidence where
  | high
  | medium
  | low
  deriving DecidableEq

def ChangeConfidence.asStr : ChangeConfidence → String
  | high => "high"
  | medium => "medium"
  | low => "low"

structure ChangeFact where
  domain : String
  key : String
  label : String
  unit : String
  /-- The median before the range, or after it where there is none before. -/
  reference : Option Binary64
  during : Option Binary64
  after : Option Binary64
  delta : Option Binary64
  direction : Direction
  confidence : ChangeConfidence
  basis : String
  nBefore : Nat
  nDuring : Nat
  nAfter : Nat

def basisFor (domain : String) : String :=
  if domain = "power" then "Observed alongside the selected interval"
  else if domain = "cpu" then "CPU activity changed during this interval"
  else if domain = "gpu" then "GPU activity changed during this interval"
  else if domain = "display" then "Display state changed during this interval"
  else if domain = "network" then "Network activity changed during this interval"
  else if domain = "storage" then "Storage activity changed during this interval"
  else if domain = "battery" then "Battery state changed during this interval"
  else "Changed during this interval"

/-- What a difference must reach to be a change. -/
def ChangeDef.threshold (d : ChangeDef) (reference : Binary64) : Binary64 :=
  match d.thresholdRel with
  | some rel => max d.thresholdAbs (reference.abs * rel)
  | none => d.thresholdAbs

/-- The difference of two medians and where it goes, if there is anything to report. -/
def directionOf (d : ChangeDef) (reference during : Option Binary64) :
    Option (Option Binary64 × Direction) :=
  match reference, during with
  | some r, some v =>
      let delta := v - r
      if delta.abs < d.threshold r then none
      else some (some delta, if delta > 0.0 then .increased else .decreased)
  | none, some _ => some (none, .appeared)
  | _, none => none

/-- A couple of samples is not enough. -/
def sparse (direction : Direction) (nBefore nDuring : Nat) : Bool :=
  if direction = .appeared then nDuring < 3 else nBefore < 3 || nDuring < 3

def confidenceOf (d : ChangeDef) (reference delta : Option Binary64) (direction : Direction)
    (nBefore nDuring : Nat) : ChangeConfidence :=
  if direction = .appeared then if 5 ≤ nDuring then .medium else .low
  else if 2.0 * d.threshold (reference.getD 0.0) ≤ (delta.getD 0.0).abs ∧ 5 ≤ nBefore ∧ 5 ≤ nDuring
    then .high
  else if 3 ≤ nBefore ∧ 3 ≤ nDuring then .medium
  else .low

def classifyChange (m : MetricSeries) (d : ChangeDef) (w : WindowStats) : Option ChangeFact :=
  -- without anything around the range there is nothing to compare with
  if w.before.n = 0 ∧ w.after.n = 0 then none
  else
    let reference := w.before.median.or w.after.median
    match directionOf d reference w.during.median with
    | none => none
    | some (delta, direction) =>
        if sparse direction w.before.known w.during.known then none
        else
          some
            { domain := m.domain
              key := m.key
              label := m.label
              unit := m.unit
              reference
              during := w.during.median
              after := w.after.median
              delta
              direction
              confidence := confidenceOf d reference delta direction w.before.known w.during.known
              basis := basisFor m.domain
              nBefore := w.before.known
              nDuring := w.during.known
              nAfter := w.after.known }

def metricOf (series : List MetricSeries) (key : String) : Option MetricSeries :=
  series.find? fun m => m.key = key

/-- The change of a metric of the catalogue. -/
def changeOf (s : SessionData) (fromMs toMs : UInt64) (d : ChangeDef) : Option ChangeFact := do
  let m ← metricOf (metricSeries s) d.key
  let w ← ((windowedMetrics s fromMs toMs).find? fun e => e.1 = d.key).map Prod.snd
  classifyChange m d w

/-- Whether it is not about the power, the words for the confidence backwards, and the label. -/
def rankKey (f : ChangeFact) : Bool ×ₗ (List Char)ᵒᵈ ×ₗ List Char :=
  toLex (f.domain ≠ "power",
    toLex (OrderDual.toDual f.confidence.asStr.toList, f.label.toList))

def detectChanges (s : SessionData) (fromMs toMs : UInt64) : List ChangeFact :=
  stableSort rankKey (changeDefs.filterMap (changeOf s fromMs toMs))

/-! ## What is a change -/

section Classify

variable {m : MetricSeries} {d : ChangeDef} {w : WindowStats} {f : ChangeFact} {r v : Binary64}

theorem Stat.known_of (samples : List Sample) :
    (Stat.of samples).known = (samples.filterMap Sample.value).length := by
  rw [Stat.of]
  split
  next hnone => rw [hnone, List.length_nil]
  · rfl

theorem Stat.n_of (samples : List Sample) : (Stat.of samples).n = samples.length := by
  rw [Stat.of]
  split <;> rfl

theorem Stat.known_le (samples : List Sample) : (Stat.of samples).known ≤ (Stat.of samples).n := by
  rw [Stat.known_of, Stat.n_of]
  exact List.length_filterMap_le _ _

theorem percentileSorted_eq_none {values : List Binary64} :
    percentileSorted values 50.0 = none ↔ values = [] := by
  constructor
  · intro hnone
    by_contra hvalues
    obtain ⟨v, hv⟩ := exists_percentileSorted hvalues (p := 50.0) (by decide +kernel)
    cases hnone.symm.trans hv
  · intro hnil
    rw [percentileSorted, if_pos (Or.inl hnil)]

/-- There is no median exactly if no value is known. -/
theorem Stat.median_of (samples : List Sample) :
    (Stat.of samples).median = none ↔ (Stat.of samples).known = 0 := by
  rw [Stat.known_of, List.length_eq_zero_iff, Stat.of]
  split
  next hnone => exact iff_of_true rfl hnone
  next hsome => exact percentileSorted_eq_none

/-- The median moves by the threshold, and there are samples enough. -/
structure Shifted (d : ChangeDef) (w : WindowStats) (r v : Binary64) : Prop where
  reference : w.before.median.or w.after.median = some r
  during : w.during.median = some v
  reaches : ¬(v - r).abs < d.threshold r
  before : 3 ≤ w.before.known
  inside : 3 ≤ w.during.known

/-- A metric that is not known around the range is known in it. -/
structure Appeared (w : WindowStats) : Prop where
  around : w.before.n ≠ 0 ∨ w.after.n ≠ 0
  unknown : w.before.median.or w.after.median = none
  during : w.during.median ≠ none
  inside : 3 ≤ w.during.known

def Changed (d : ChangeDef) (w : WindowStats) : Prop := (∃ r v, Shifted d w r v) ∨ Appeared w

/-- The median moves by twice the threshold, and there are five samples on both sides. -/
def Strong (d : ChangeDef) (w : WindowStats) : Prop :=
  ∃ r v, Shifted d w r v ∧ 2.0 * d.threshold r ≤ (v - r).abs ∧ 5 ≤ w.before.known ∧
    5 ≤ w.during.known

theorem directionOf_moved (hreaches : ¬(v - r).abs < d.threshold r) :
    ∃ direction, direction ≠ .appeared ∧
      directionOf d (some r) (some v) = some (some (v - r), direction) := by
  refine ⟨if v - r > 0.0 then .increased else .decreased, ?_, ?_⟩
  · split <;> decide
  · rw [directionOf]
    exact if_neg hreaches

/-- Whatever is reported is a change, and it is strong if the confidence is high. -/
theorem classifyChange_some (hf : classifyChange m d w = some f) :
    f.domain = m.domain ∧ Changed d w ∧ (f.confidence = .high ↔ Strong d w) := by
  unfold classifyChange at hf
  split at hf
  · cases hf
  next haround =>
    dsimp only at hf
    cases hreference : w.before.median.or w.after.median with
    | none =>
        -- nothing to compare with: the metric can only have appeared
        cases hduring : w.during.median with
        | none => simp [directionOf, hreference, hduring] at hf
        | some v =>
            simp only [directionOf, hreference, hduring, sparse, if_true] at hf
            split at hf
            · cases hf
            next hmany =>
              obtain rfl := Option.some.inj hf
              have happeared : Appeared w := ⟨not_and_or.mp haround, hreference,
                hduring ▸ Option.some_ne_none v, by simpa using hmany⟩
              refine ⟨rfl, Or.inr happeared, ?_⟩
              constructor
              · intro hhigh
                simp only [confidenceOf, if_true] at hhigh
                split at hhigh <;> cases hhigh
              · rintro ⟨r, v', hshifted, -⟩
                rw [hshifted.reference] at hreference
                cases hreference
    | some r =>
        cases hduring : w.during.median with
        | none => simp [directionOf, hreference, hduring] at hf
        | some v =>
            by_cases hreaches : (v - r).abs < d.threshold r
            · simp [directionOf, hreference, hduring, hreaches] at hf
            · obtain ⟨direction, hmoved, hdirection⟩ := directionOf_moved hreaches
              rw [hreference, hduring, hdirection] at hf
              dsimp only at hf
              split at hf
              · cases hf
              next hmany =>
                obtain rfl := Option.some.inj hf
                rw [sparse, if_neg hmoved] at hmany
                have hcounts : 3 ≤ w.before.known ∧ 3 ≤ w.during.known := by
                  simpa using hmany
                -- the two medians are those of any shift, so the confidence asks for the same
                have hshifted : Shifted d w r v :=
                  ⟨hreference, hduring, hreaches, hcounts.1, hcounts.2⟩
                refine ⟨rfl, Or.inl ⟨r, v, hshifted⟩, ?_⟩
                dsimp only
                rw [confidenceOf, if_neg hmoved, Option.getD_some, Option.getD_some]
                constructor
                · intro hhigh
                  split at hhigh
                  next hstrong => exact ⟨r, v, hshifted, hstrong⟩
                  · cases hhigh
                · rintro ⟨r', v', hshifted', hstrong⟩
                  obtain rfl := Option.some.inj (hreference.symm.trans hshifted'.reference)
                  obtain rfl := Option.some.inj (hduring.symm.trans hshifted'.during)
                  rw [if_pos hstrong]

theorem classifyChange_isSome (hcount : w.before.known ≤ w.before.n) (h : Changed d w) :
    (classifyChange m d w).isSome := by
  obtain ⟨r, v, hshifted⟩ | happeared := h
  · have haround : ¬(w.before.n = 0 ∧ w.after.n = 0) := by
      have hbefore := hshifted.before
      omega
    obtain ⟨direction, hmoved, hdirection⟩ := directionOf_moved hshifted.reaches
    have hmany : ¬sparse direction w.before.known w.during.known = true := by
      simp [sparse, hmoved, hshifted.before, hshifted.inside]
    rw [classifyChange, if_neg haround, hshifted.reference, hshifted.during]
    dsimp only
    rw [hdirection]
    dsimp only
    rw [if_neg hmany, Option.isSome_some]
  · obtain ⟨v, hduring⟩ := Option.ne_none_iff_exists'.mp happeared.during
    rw [classifyChange, if_neg (not_and_or.mpr happeared.around)]
    have hinside := happeared.inside
    have hmany : ¬sparse .appeared w.before.known w.during.known = true := by
      simp [sparse, hinside]
    simp only [directionOf, happeared.unknown, hduring, if_neg hmany, Option.isSome_some]

end Classify

section Changes

variable {s : SessionData} {fromMs toMs : UInt64} {d : ChangeDef} {m : MetricSeries}

theorem changeOf_eq (hm : metricOf (metricSeries s) d.key = some m) :
    changeOf s fromMs toMs d = classifyChange m d (windowStats s fromMs toMs m) := by
  have hwindow : ((windowedMetrics s fromMs toMs).find? fun e => e.1 = d.key) =
      some (m.key, windowStats s fromMs toMs m) := by
    rw [windowedMetrics, List.find?_map]
    have hfind : (metricSeries s).find? ((fun e : String × WindowStats => decide (e.1 = d.key)) ∘
        fun m => (m.key, windowStats s fromMs toMs m)) = some m := hm
    rw [hfind, Option.map_some]
  rw [changeOf, hm, hwindow]
  rfl

/-- Every change of the catalogue is about a metric. -/
theorem metricOf_changeDefs (s : SessionData) :
    ∀ d ∈ changeDefs, (metricOf (metricSeries s) d.key).isSome := by
  intro d hd
  have hkeys : ∀ key ∈ changeDefs.map ChangeDef.key, key ∈ (metricSeries default).map
      MetricSeries.key := by decide
  have hsame : (metricSeries default).map MetricSeries.key =
      (metricSeries s).map MetricSeries.key := rfl
  rw [metricOf, List.find?_isSome]
  obtain ⟨m, hm, hkey⟩ := List.mem_map.mp (hsame ▸ hkeys d.key (List.mem_map_of_mem hd))
  exact ⟨m, hm, decide_eq_true hkey⟩

theorem known_le_before (m : MetricSeries) :
    (windowStats s fromMs toMs m).before.known ≤ (windowStats s fromMs toMs m).before.n :=
  Stat.known_le _

theorem mem_detectChanges {f : ChangeFact} : f ∈ detectChanges s fromMs toMs ↔
    ∃ d ∈ changeDefs, ∃ m, metricOf (metricSeries s) d.key = some m ∧
      classifyChange m d (windowStats s fromMs toMs m) = some f := by
  rw [detectChanges, (stableSort_perm _ _).mem_iff, List.mem_filterMap]
  refine exists_congr fun d => and_congr_right fun hd => ?_
  obtain ⟨m, hm⟩ := Option.isSome_iff_exists.mp (metricOf_changeDefs s d hd)
  rw [changeOf_eq hm]
  constructor
  · exact fun hf => ⟨m, hm, hf⟩
  · rintro ⟨m', hm', hf⟩
    obtain rfl := Option.some.inj (hm.symm.trans hm')
    exact hf

end Changes

/-! ## The order of the changes -/

section Ranking

variable {f g : ChangeFact}

def ChangeConfidence.strength : ChangeConfidence → Nat
  | high => 2
  | medium => 1
  | low => 0

/-- Both are about the power, or none of them is. -/
def SameGroup (f g : ChangeFact) : Prop := f.domain = "power" ↔ g.domain = "power"

/-- The changes of the power come first, and in each group confidence does not increase. -/
structure Ranked (facts : List ChangeFact) : Prop where
  powerFirst : facts.Pairwise fun f g => g.domain = "power" → f.domain = "power"
  confidence : facts.Pairwise fun f g =>
    SameGroup f g → g.confidence.strength ≤ f.confidence.strength

theorem rankKey_le : rankKey f ≤ rankKey g ↔
    (f.domain = "power" ∧ g.domain ≠ "power") ∨
      SameGroup f g ∧ (g.confidence.asStr.toList < f.confidence.asStr.toList ∨
        f.confidence = g.confidence ∧ f.label.toList ≤ g.label.toList) := by
  have htexts : f.confidence.asStr.toList = g.confidence.asStr.toList ↔
      f.confidence = g.confidence := by
    cases f.confidence <;> cases g.confidence <;> decide
  have hdual : OrderDual.toDual f.confidence.asStr.toList <
      OrderDual.toDual g.confidence.asStr.toList ↔
        g.confidence.asStr.toList < f.confidence.asStr.toList := OrderDual.toDual_lt_toDual
  rw [rankKey, rankKey, Prod.Lex.toLex_le_toLex, Prod.Lex.toLex_le_toLex]
  simp only [hdual, OrderDual.toDual_inj, htexts, SameGroup]
  by_cases hf : f.domain = "power" <;> by_cases hg : g.domain = "power" <;> simp [hf, hg]

/-- Backwards, medium confidence comes before low one and low one before high one. -/
theorem asStr_lt {x y : ChangeConfidence} : y.asStr.toList < x.asStr.toList ↔
    (x = .medium ∧ y ≠ .medium) ∨ (x = .low ∧ y = .high) := by
  cases x <;> cases y <;> decide

/-- In a group, what is not high is in front of what is. -/
theorem not_rankKey_le (hgroup : SameGroup f g) (hhigh : f.confidence = .high)
    (hother : g.confidence ≠ .high) : ¬rankKey f ≤ rankKey g := by
  rw [rankKey_le, asStr_lt, hhigh]
  rintro (⟨hf, hg⟩ | ⟨-, (⟨hmedium, -⟩ | ⟨hlow, -⟩) | ⟨heq, -⟩⟩)
  · exact hg (hgroup.mp hf)
  · cases hmedium
  · cases hlow
  · exact hother heq.symm

theorem high_of_strength {x : ChangeConfidence} (h : ChangeConfidence.high.strength ≤ x.strength) :
    x = .high := by
  revert h
  cases x <;> decide

/-- Apart from that, the key orders a group by strength. -/
theorem strength_of_rankKey_le (hle : rankKey f ≤ rankKey g) (hgroup : SameGroup f g)
    (hhigh : g.confidence = .high → f.confidence = .high) :
    g.confidence.strength ≤ f.confidence.strength := by
  obtain ⟨hf, hg⟩ | ⟨-, hwords | ⟨heq, -⟩⟩ := rankKey_le.mp hle
  · exact absurd (hgroup.mp hf) hg
  · obtain ⟨hmedium, -⟩ | ⟨hlow, hgHigh⟩ := asStr_lt.mp hwords
    · rw [hmedium] at hhigh ⊢
      cases hother : g.confidence with
      | high => cases hhigh hother
      | medium => decide
      | low => decide
    · have hf := hhigh hgHigh
      rw [hlow] at hf
      cases hf
  · rw [heq]

/-- A sort by the key is ranked exactly if no group has high confidence and any other. -/
theorem ranked_stableSort_iff (facts : List ChangeFact) : Ranked (stableSort rankKey facts) ↔
    ∀ f ∈ facts, ∀ g ∈ facts, SameGroup f g → f.confidence = .high → g.confidence = .high := by
  have hmem : ∀ f, f ∈ stableSort rankKey facts ↔ f ∈ facts :=
    fun f => (stableSort_perm rankKey facts).mem_iff
  have hsorted : (stableSort rankKey facts).Pairwise fun f g => rankKey f ≤ rankKey g :=
    ascending_stableSort rankKey facts
  constructor
  · intro h f hf g hg hgroup hhigh
    by_contra hother
    obtain ⟨i, hi, rfl⟩ := List.getElem_of_mem ((hmem f).mpr hf)
    obtain ⟨j, hj, rfl⟩ := List.getElem_of_mem ((hmem g).mpr hg)
    obtain hlt | rfl | hgt := lt_trichotomy i j
    · exact not_rankKey_le hgroup hhigh hother
        (List.pairwise_iff_getElem.mp hsorted i j hi hj hlt)
    · exact hother hhigh
    · have hstrength := List.pairwise_iff_getElem.mp h.confidence j i hj hi hgt hgroup.symm
      rw [hhigh] at hstrength
      exact hother (high_of_strength hstrength)
  · intro h
    have hsorted' : (stableSort rankKey facts).Pairwise fun f g =>
        rankKey f ≤ rankKey g ∧ (SameGroup g f → g.confidence = .high → f.confidence = .high) := by
      refine hsorted.imp_of_mem ?_
      intro f g hf hg hle
      exact ⟨hle, h g ((hmem g).mp hg) f ((hmem f).mp hf)⟩
    constructor
    · refine hsorted'.imp ?_
      intro f g hfg hg
      obtain ⟨hf, -⟩ | ⟨hgroup, -⟩ := rankKey_le.mp hfg.1
      · exact hf
      · exact hgroup.mpr hg
    · refine hsorted'.imp ?_
      intro f g hfg hgroup
      exact strength_of_rankKey_le hfg.1 hgroup (hfg.2 hgroup.symm)

/-- Where two metrics of a group change, both are strong or none is. -/
def Uniform (s : SessionData) (fromMs toMs : UInt64) : Prop :=
  ∀ d ∈ changeDefs, ∀ d' ∈ changeDefs, ∀ m ∈ metricOf (metricSeries s) d.key,
    ∀ m' ∈ metricOf (metricSeries s) d'.key, (m.domain = "power" ↔ m'.domain = "power") →
      Strong d (windowStats s fromMs toMs m) → Changed d' (windowStats s fromMs toMs m') →
        Strong d' (windowStats s fromMs toMs m')

/-- Changes are ranked by strength exactly if no group has strong and other changes. -/
theorem detectChanges_ranked_iff (s : SessionData) (fromMs toMs : UInt64) :
    Ranked (detectChanges s fromMs toMs) ↔ Uniform s fromMs toMs := by
  have hmem : ∀ f, f ∈ changeDefs.filterMap (changeOf s fromMs toMs) ↔
      f ∈ detectChanges s fromMs toMs :=
    fun f => (stableSort_perm rankKey _).mem_iff.symm
  rw [detectChanges, ranked_stableSort_iff]
  simp only [hmem, mem_detectChanges]
  constructor
  · intro h d hd d' hd' m hm m' hm' hgroup hstrong hchanged
    have hchanged₀ : Changed d (windowStats s fromMs toMs m) := by
      obtain ⟨r, v, hshifted, -⟩ := hstrong
      exact Or.inl ⟨r, v, hshifted⟩
    obtain ⟨f, hf⟩ := Option.isSome_iff_exists.mp
      (classifyChange_isSome (m := m) (known_le_before m) hchanged₀)
    obtain ⟨g, hg⟩ := Option.isSome_iff_exists.mp
      (classifyChange_isSome (m := m') (known_le_before m') hchanged)
    obtain ⟨hdomain, -, hhigh⟩ := classifyChange_some hf
    obtain ⟨hdomain', -, hhigh'⟩ := classifyChange_some hg
    refine hhigh'.mp (h f ⟨d, hd, m, hm, hf⟩ g ⟨d', hd', m', hm', hg⟩ ?_ (hhigh.mpr hstrong))
    rw [SameGroup, hdomain, hdomain']
    exact hgroup
  · rintro h f ⟨d, hd, m, hm, hf⟩ g ⟨d', hd', m', hm', hg⟩ hgroup hhigh
    obtain ⟨hdomain, -, hstrong⟩ := classifyChange_some hf
    obtain ⟨hdomain', hchanged, hstrong'⟩ := classifyChange_some hg
    rw [SameGroup, hdomain, hdomain'] at hgroup
    exact hstrong'.mpr (h d hd d' hd' m hm m' hm' hgroup (hstrong.mp hhigh) hchanged)

end Ranking

/-- A CPU point of a session without stamps. -/
def cpuAt (t : Binary64) (utility pkgPowerW : Option Binary64) : CpuPoint :=
  { (default : CpuPoint) with
    t
    utility := utility.elim default fun x => .measured x "cpu" default
    pkgPowerW := pkgPowerW.elim default fun x => .measured x "cpu" default }

/-- After five seconds the utility rises by much and the power by a little. -/
def mixedChanges : SessionData :=
  { (default : SessionData) with
    wallBaseMs := 1000
    cpu := ([0.0, 1.0, 2.0, 3.0, 4.0].map fun t => cpuAt t (some 5.0) (some 5.0)) ++
      [5.0, 6.0, 7.0, 8.0, 9.0].map fun t => cpuAt t (some 40.0) (some 5.75) }

/-- What is reported with high confidence comes last. -/
theorem high_comes_last : ¬Ranked (detectChanges mixedChanges 6000 10000) := by
  have hfacts : (detectChanges mixedChanges 6000 10000).map (fun f => (f.domain, f.confidence)) =
      [("cpu", .medium), ("cpu", .high)] := by
    decide +kernel
  intro h
  obtain ⟨f, rest, hcons, hf, hrest⟩ := List.map_eq_cons_iff.mp hfacts
  obtain ⟨g, rest', rfl, hg, -⟩ := List.map_eq_cons_iff.mp hrest
  obtain ⟨hdomain, hmedium⟩ := Prod.mk.inj hf
  obtain ⟨hdomain', hhigh⟩ := Prod.mk.inj hg
  have hgroup : SameGroup f g := by rw [SameGroup, hdomain, hdomain']
  have hpairs := h.confidence
  rw [hcons] at hpairs
  have hstrength := (List.pairwise_cons.mp hpairs).1 g List.mem_cons_self hgroup
  rw [hmedium, hhigh] at hstrength
  exact absurd hstrength (by decide)

/-! ## The whole session -/

section Whole

variable {s : SessionData} {fromMs toMs : UInt64}

theorem detectChanges_eq_nil : detectChanges s fromMs toMs = [] ↔
    ∀ d ∈ changeDefs, ∀ m ∈ metricOf (metricSeries s) d.key,
      ¬Changed d (windowStats s fromMs toMs m) := by
  rw [List.eq_nil_iff_forall_not_mem]
  constructor
  · intro h d hd m hm hchanged
    obtain ⟨f, hf⟩ := Option.isSome_iff_exists.mp
      (classifyChange_isSome (m := m) (known_le_before m) hchanged)
    exact h f (mem_detectChanges.mpr ⟨d, hd, m, hm, hf⟩)
  · intro h f hf
    obtain ⟨d, hd, m, hm, hf⟩ := mem_detectChanges.mp hf
    exact h d hd m hm (classifyChange_some hf).2.1

theorem toNat_max (a b : UInt64) : (max a b).toNat = max a.toNat b.toNat := by
  have hmax : max a b = if a ≤ b then b else a := rfl
  rw [hmax]
  split
  next hle => exact (max_eq_right (UInt64.le_iff_toNat_le.mp hle)).symm
  next hlt => exact (max_eq_left (by rw [UInt64.le_iff_toNat_le] at hlt; omega)).symm

theorem toNat_min (a b : UInt64) : (min a b).toNat = min a.toNat b.toNat := by
  have hmin : min a b = if a ≤ b then a else b := rfl
  rw [hmin]
  split
  next hle => exact (min_eq_left (UInt64.le_iff_toNat_le.mp hle)).symm
  next hlt => exact (min_eq_right (by rw [UInt64.le_iff_toNat_le] at hlt; omega)).symm

theorem toNat_saturatingSub (a b : UInt64) : (saturatingSub a b).toNat = a.toNat - b.toNat := by
  have hlt := a.toNat_lt
  exact UInt64.toNat_ofNat_of_lt' (by rw [UInt64.size]; omega)

theorem toNat_saturatingAdd (a b : UInt64) :
    (saturatingAdd a b).toNat = min (a.toNat + b.toNat) (2 ^ 64 - 1) :=
  UInt64.toNat_ofNat_of_lt' (by rw [UInt64.size]; omega)

theorem span_start_le (s : SessionData) : s.wallBaseMs ≤ (sessionSpanMs s).2 := by
  rw [UInt64.le_iff_toNat_le, sessionSpanMs, toNat_max]
  exact le_max_right _ _

/-- Around the whole session there are its first and its last millisecond. -/
theorem contextWindows_span (s : SessionData) :
    contextWindows s (sessionSpanMs s).1 (sessionSpanMs s).2 =
      (s.wallBaseMs, s.wallBaseMs, (sessionSpanMs s).2, (sessionSpanMs s).2) := by
  have hstart : (sessionSpanMs s).1 = s.wallBaseMs := rfl
  have hend : (sessionEndWall s).getD (sessionSpanMs s).2 ≤ (sessionSpanMs s).2 := by
    rw [sessionSpanMs, UInt64.le_iff_toNat_le]
    cases sessionEndWall s with
    | none => exact le_rfl
    | some last =>
        rw [Option.getD_some, Option.getD_some, toNat_max]
        exact le_max_left _ _
  rw [UInt64.le_iff_toNat_le] at hend
  rw [contextWindows, hstart]
  simp only [Prod.mk.injEq, true_and, ← UInt64.toNat_inj, toNat_max, toNat_min,
    toNat_saturatingSub, toNat_saturatingAdd]
  have hlast := (sessionSpanMs s).2.toNat_lt
  omega

/-- A metric that is not known in the first and the last millisecond is known in between. -/
structure EdgeAppearance (first whole last : Stat) : Prop where
  around : first.n ≠ 0 ∨ last.n ≠ 0
  unknown : first.known = 0 ∧ last.known = 0
  inside : 3 ≤ whole.known

/-- Three samples or more of the first millisecond have another median than the session. -/
structure EdgeShift (d : ChangeDef) (first whole : Stat) : Prop where
  enough : 3 ≤ first.known
  reaches : ∀ r ∈ first.median, ∀ v ∈ whole.median, ¬(v - r).abs < d.threshold r

theorem known_mono (m : MetricSeries) {fromMs toMs fromMs' toMs' : UInt64}
    (hfrom : fromMs ≤ fromMs') (hto : toMs' ≤ toMs) :
    (statIn m fromMs' toMs').known ≤ (statIn m fromMs toMs).known := by
  rw [statIn, statIn, Stat.known_of, Stat.known_of]
  refine (List.Sublist.filterMap _ (List.monotone_filter_right _ ?_)).length_le
  intro p hp
  simp only [Bool.and_eq_true, decide_eq_true_eq] at hp ⊢
  exact ⟨UInt64.le_trans hfrom hp.1, UInt64.le_trans hp.2 hto⟩

theorem changed_whole_iff (d : ChangeDef) (m : MetricSeries) :
    Changed d (windowStats s (sessionSpanMs s).1 (sessionSpanMs s).2 m) ↔
      EdgeShift d (statIn m s.wallBaseMs s.wallBaseMs) (statIn m s.wallBaseMs (sessionSpanMs s).2) ∨
        EdgeAppearance (statIn m s.wallBaseMs s.wallBaseMs)
          (statIn m s.wallBaseMs (sessionSpanMs s).2)
          (statIn m (sessionSpanMs s).2 (sessionSpanMs s).2) := by
  rw [windowStats, contextWindows_span]
  have hinside := known_mono m (UInt64.le_refl s.wallBaseMs) (span_start_le s)
  -- a window has a median where it has a known sample, and the first moment is in the whole span
  have hnone : ∀ fromMs toMs, (statIn m fromMs toMs).median = none ↔
      (statIn m fromMs toMs).known = 0 := fun _ _ => Stat.median_of _
  have hsome : ∀ fromMs toMs, 3 ≤ (statIn m fromMs toMs).known →
      ∃ r, (statIn m fromMs toMs).median = some r := by
    intro fromMs toMs hmany
    rw [← Option.ne_none_iff_exists', Ne, hnone]
    omega
  generalize (sessionSpanMs s).2 = last at *
  refine or_congr ?_ ?_
  · constructor
    · rintro ⟨r, v, hreference, hduring, hreaches, hfirst, -⟩
      refine ⟨hfirst, ?_⟩
      obtain ⟨r', hr'⟩ := hsome _ _ hfirst
      dsimp only at hreference hduring
      rw [hr', Option.some_or] at hreference
      obtain rfl := Option.some.inj hreference
      rw [hr', hduring]
      rintro _ ⟨⟩ _ ⟨⟩
      exact hreaches
    · rintro ⟨hfirst, hreaches⟩
      obtain ⟨r, hr⟩ := hsome _ _ hfirst
      obtain ⟨v, hv⟩ := hsome _ _ (hfirst.trans hinside)
      exact ⟨r, v, by rw [hr, Option.some_or], hv, hreaches r hr v hv, hfirst,
        hfirst.trans hinside⟩
  · constructor
    · rintro ⟨haround, hunknown, hduring, hmany⟩
      rw [Option.or_eq_none_iff, hnone, hnone] at hunknown
      exact ⟨haround, hunknown, hmany⟩
    · rintro ⟨haround, hunknown, hmany⟩
      refine ⟨haround, ?_, ?_, hmany⟩
      · rw [Option.or_eq_none_iff, hnone, hnone]
        exact hunknown
      · rw [Ne, hnone]
        omega

/-- A time that is in the range and in one of the windows around it. -/
def Shared (s : SessionData) (fromMs toMs wall : UInt64) : Prop :=
  let (b0, b1, a0, a1) := contextWindows s fromMs toMs
  inWindow b1 a0 wall ∧ (inWindow b0 b1 wall ∨ inWindow a0 a1 wall)

/-- What is shared are the edges of the range. -/
theorem shared_iff (s : SessionData) (fromMs toMs wall : UInt64) : Shared s fromMs toMs wall ↔
    fromMs ≤ toMs ∧ (wall = toMs ∨ s.wallBaseMs ≤ fromMs ∧ wall = fromMs) := by
  have hto := toMs.toNat_lt
  simp only [Shared, contextWindows, inWindow, Bool.and_eq_true, decide_eq_true_eq,
    UInt64.le_iff_toNat_le, ← UInt64.toNat_inj, toNat_max, toNat_min, toNat_saturatingSub,
    toNat_saturatingAdd]
  generalize ((sessionEndWall s).getD toMs).toNat = last
  generalize max (max (toMs.toNat - fromMs.toNat) (UInt64.toNat 1)) (UInt64.toNat 10000) = dur
  generalize UInt64.toNat (5 * 60000) = limit
  omega

/-- Nothing changes in the whole session exactly if no metric has its only unknown samples at
the edges and none has another median in the first millisecond. Samples are shared with the
windows around a range exactly if they lie on its edges. -/
theorem detectChanges_whole_iff (s : SessionData) :
    (detectChanges s (sessionSpanMs s).1 (sessionSpanMs s).2 = [] ↔
      ∀ d ∈ changeDefs, ∀ m ∈ metricOf (metricSeries s) d.key,
        ¬EdgeShift d (statIn m s.wallBaseMs s.wallBaseMs)
            (statIn m s.wallBaseMs (sessionSpanMs s).2) ∧
          ¬EdgeAppearance (statIn m s.wallBaseMs s.wallBaseMs)
            (statIn m s.wallBaseMs (sessionSpanMs s).2)
            (statIn m (sessionSpanMs s).2 (sessionSpanMs s).2)) ∧
      ∀ fromMs toMs,
        (∀ m ∈ metricSeries s, ∀ p ∈ m.samples, ¬Shared s fromMs toMs p.wallMs) ↔
          (fromMs ≤ toMs → ∀ m ∈ metricSeries s, ∀ p ∈ m.samples,
            p.wallMs ≠ toMs ∧ (s.wallBaseMs ≤ fromMs → p.wallMs ≠ fromMs)) := by
  constructor
  · simp only [detectChanges_eq_nil, changed_whole_iff, not_or]
  · intro fromMs toMs
    simp only [shared_iff, not_and, not_or]
    exact ⟨fun h hle m hm p hp => h m hm p hp hle, fun h m hm p hp hle => h hle m hm p hp⟩

end Whole

/-- The utility is not known at first, and the battery is read last. -/
def lateUtility : SessionData :=
  { (default : SessionData) with
    wallBaseMs := 1000
    battery := [{ (default : BatteryPoint) with t := 5.0 }]
    cpu := cpuAt 0.0 none none :: [1.0, 2.0, 3.0].map fun t => cpuAt t (some 5.0) none }

/-- A change of the whole session is reported, and a sample is in two windows. -/
theorem edges_compared :
    detectChanges lateUtility (sessionSpanMs lateUtility).1 (sessionSpanMs lateUtility).2 ≠ [] ∧
      ¬∀ m ∈ metricSeries lateUtility, ∀ p ∈ m.samples, ¬Shared lateUtility 1000 6000 p.wallMs := by
  constructor
  · intro hnil
    have hcount := congrArg List.length hnil
    exact absurd hcount (by decide +kernel)
  · intro h
    refine h _ List.mem_cons_self _ List.mem_cons_self ((shared_iff _ _ _ _).mpr ?_)
    exact ⟨by decide, Or.inl (by decide +kernel)⟩

end PowerForensics.Analyze
