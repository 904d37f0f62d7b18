import PowerForensics.Binary64.Alike
import PowerForensics.Core.Session
import PowerForensics.System.Extremes

/-! # The idle part of a session

A discharge counts as idle if the processor and the graphics adapters were quiet at that time. The
three series have their own cadence, so each battery sample is compared with the nearest sample of
the other two. What the comparison makes of adapters without a reading decides whether a sample is
idle.
-/

namespace PowerForensics.Analysis

open Session Extremes

/-! ## Selection -/

/-- The value of the nearest entry, if it is near enough and known. -/
def near (t : Binary64) (series : List (Binary64 × Option Binary64)) : Option Binary64 :=
  let nearest := leastBy (fun p => (p.1 - t).abs.totalRank) series
  (nearest.filter fun p => (p.1 - t).abs ≤ 2.5).bind Prod.snd

/-- The known utilization of each adapter that has one. -/
def adapterReadings (g : GpuPoint) : List Binary64 := g.adapters.filterMap fun a => a.totalUtil.val

def cpuU (s : SessionData) : List (Binary64 × Option Binary64) :=
  s.cpu.map fun p => (p.t, p.utility.val)

def gpuT (s : SessionData) : List (Binary64 × Option Binary64) :=
  s.gpu.map fun g => (g.t, (adapterReadings g).max?)

/-- The battery samples that count as idle. -/
def idlePoints (s : SessionData) : List BatteryPoint :=
  (s.battery.filter fun p => p.discharge.val.isSome).filter fun p =>
    ((near p.t (cpuU s)).map fun u => decide (u < 10.0)).getD false &&
      ((near p.t (gpuT s)).map fun g => decide (g < 0.5)).getD false

def idleSubset (s : SessionData) : List Binary64 :=
  (idlePoints s).filterMap fun p => p.discharge.val

/-! ## Nearest samples -/

section Nearest

variable {α : Type} {time : α → Binary64} {value : α → Option Binary64} {t : Binary64}
  {xs : List α} {x : α}

/-- The first of the samples nearest to a time, at most two and a half seconds away. -/
def Nearest (time : α → Binary64) (t : Binary64) (xs : List α) (x : α) : Prop :=
  FirstLeast (fun y => (time y - t).abs.totalRank) xs x ∧ (time x - t).abs ≤ 2.5

theorem near_eq_some {v : Binary64} : near t (xs.map fun x => (time x, value x)) = some v ↔
    ∃ x, Nearest time t xs x ∧ value x = some v := by
  rw [near]
  simp only [Option.bind_eq_some_iff, Option.filter_eq_some_iff, decide_eq_true_eq]
  constructor
  · rintro ⟨p, ⟨hleast, hnear⟩, hv⟩
    obtain ⟨x, hfirst, rfl⟩ := firstLeast_map.mp (leastBy_eq_some.mp hleast)
    exact ⟨x, ⟨hfirst, hnear⟩, hv⟩
  · rintro ⟨x, ⟨hfirst, hnear⟩, hv⟩
    exact ⟨_, ⟨leastBy_eq_some.mpr (firstLeast_map.mpr ⟨x, hfirst, rfl⟩), hnear⟩, hv⟩

theorem near_below_iff {bound : Binary64} :
    ((near t (xs.map fun x => (time x, value x))).map fun v => decide (v < bound)).getD false ↔
      ∃ x, Nearest time t xs x ∧ ∃ v, value x = some v ∧ v < bound := by
  have hbelow : ∀ o : Option Binary64,
      (o.map fun v => decide (v < bound)).getD false ↔ ∃ v, o = some v ∧ v < bound := by
    intro o
    cases o <;> simp
  rw [hbelow]
  simp only [near_eq_some]
  constructor
  · rintro ⟨v, ⟨x, hx, hv⟩, hlt⟩
    exact ⟨x, hx, v, hv, hlt⟩
  · rintro ⟨x, hx, v, hv, hlt⟩
    exact ⟨v, ⟨x, hx, hv⟩, hlt⟩

/-- There is only one nearest sample. -/
theorem Nearest.eq {y : α} (hx : Nearest time t xs x) (hy : Nearest time t xs y) : x = y :=
  Option.some.inj ((leastBy_of_firstLeast hx.1).symm.trans (leastBy_of_firstLeast hy.1))

end Nearest

/-! ## Corroboration -/

/-- The nearest processor sample is known to be quiet. -/
def QuietCpu (s : SessionData) (t : Binary64) : Prop :=
  ∃ c, Nearest CpuPoint.t t s.cpu c ∧ ∃ u, c.utility.val = some u ∧ u < 10.0

/-- There are adapters, and all are known to be quiet. -/
def AllQuiet (g : GpuPoint) : Prop :=
  g.adapters ≠ [] ∧ ∀ a ∈ g.adapters, ∃ v, a.totalUtil.val = some v ∧ v < 0.5

structure Corroborated (s : SessionData) (t : Binary64) : Prop where
  cpu : QuietCpu s t
  gpu : ∃ g, Nearest GpuPoint.t t s.gpu g ∧ AllQuiet g

/-- Each value belongs to a battery sample at a time that is known to be idle. -/
structure Idle (s : SessionData) (values : List Binary64) (points : List BatteryPoint) : Prop where
  samples : points.Sublist s.battery
  values : points.map (fun p => p.discharge.val) = values.map some
  corroborated : ∀ p ∈ points, Corroborated s p.t

/-- Some readings are numbers, and these are low. -/
def SomeQuiet (g : GpuPoint) : Prop :=
  (∃ v ∈ adapterReadings g, v.isNaN = false) ∧
    ∀ v ∈ adapterReadings g, v.isNaN = false → v < 0.5

/-- Every adapter has a reading that is a number. -/
def AllRead (g : GpuPoint) : Prop :=
  ∀ a ∈ g.adapters, ∃ v, a.totalUtil.val = some v ∧ v.isNaN = false

theorem mem_adapterReadings {g : GpuPoint} {v : Binary64} :
    v ∈ adapterReadings g ↔ ∃ a ∈ g.adapters, a.totalUtil.val = some v := List.mem_filterMap

/-- The greatest reading is low exactly if some readings are numbers and these are low. -/
theorem max_below_iff {values : List Binary64} {bound : Binary64} :
    (∃ m, values.max? = some m ∧ m < bound) ↔ (∃ v ∈ values, v.isNaN = false) ∧
      (∀ v ∈ values, v.isNaN = false → v < bound) := by
  cases values with
  | nil => simp
  | cons x values =>
      obtain ⟨hmem, hgreatest⟩ := Binary64.foremost_foldl (· ≥ ·) le_refl
        (fun _ _ _ h h' => le_trans h' h) Binary64.foremost_max x values
      rw [List.max?_cons']
      constructor
      · rintro ⟨m, hm, hlt⟩
        obtain rfl := Option.some.inj hm
        refine ⟨⟨_, hmem, hlt.1⟩, fun v hv hnumber => ?_⟩
        obtain ⟨-, hge⟩ := hgreatest v hv hnumber
        exact ⟨hnumber, hlt.2.1, lt_of_le_of_lt hge hlt.2.2⟩
      · rintro ⟨⟨v, hv, hnumber⟩, hall⟩
        exact ⟨_, rfl, hall _ hmem (hgreatest v hv hnumber).1⟩

/-- The readings decide about all adapters exactly if each has one. -/
theorem allQuiet_iff {g : GpuPoint} (h : SomeQuiet g) : AllQuiet g ↔ AllRead g := by
  constructor
  · rintro ⟨-, hall⟩ a ha
    obtain ⟨v, hv, hlt⟩ := hall a ha
    exact ⟨v, hv, hlt.1⟩
  · intro hread
    obtain ⟨⟨v, hv, -⟩, hlow⟩ := h
    obtain ⟨a, ha, -⟩ := mem_adapterReadings.mp hv
    refine ⟨List.ne_nil_of_mem ha, fun b hb => ?_⟩
    obtain ⟨w, hw, hnumber⟩ := hread b hb
    exact ⟨w, hw, hlow w (mem_adapterReadings.mpr ⟨b, hb, hw⟩) hnumber⟩

theorem mem_idlePoints {s : SessionData} {p : BatteryPoint} : p ∈ idlePoints s ↔
    p ∈ s.battery ∧ p.discharge.val.isSome ∧ QuietCpu s p.t ∧
      ∃ g, Nearest GpuPoint.t p.t s.gpu g ∧ SomeQuiet g := by
  rw [idlePoints, List.mem_filter, List.mem_filter, Bool.and_eq_true, cpuU, gpuT, near_below_iff,
    near_below_iff, and_assoc]
  simp only [max_below_iff]
  rfl

/-- Known values stay with their samples. -/
theorem map_discharge {points : List BatteryPoint}
    (hknown : ∀ p ∈ points, p.discharge.val.isSome) : points.map (fun p => p.discharge.val) =
      (points.filterMap fun p => p.discharge.val).map some := by
  induction points with
  | nil => rfl
  | cons p points ih =>
      obtain ⟨hp, hknown⟩ := List.forall_mem_cons.mp hknown
      obtain ⟨v, hv⟩ := Option.isSome_iff_exists.mp hp
      have hcons : (p :: points).filterMap (fun p => p.discharge.val) =
          v :: points.filterMap fun p => p.discharge.val := List.filterMap_cons_some hv
      rw [hcons, List.map_cons, List.map_cons, hv, ih hknown]

/-- Idle samples are corroborated exactly if, where the processor is quiet and so are the adapters
that have a reading, each adapter has one. -/
theorem idle_corroborated_iff (s : SessionData) :
    Idle s (idleSubset s) (idlePoints s) ↔
      ∀ p ∈ s.battery, p.discharge.val.isSome → QuietCpu s p.t →
        ∀ g, Nearest GpuPoint.t p.t s.gpu g → SomeQuiet g → AllRead g := by
  constructor
  · intro h p hp hknown hcpu g hg hquiet
    obtain ⟨-, g', hg', hall⟩ :=
      h.corroborated p (mem_idlePoints.mpr ⟨hp, hknown, hcpu, g, hg, hquiet⟩)
    obtain rfl := hg'.eq hg
    exact (allQuiet_iff hquiet).mp hall
  · intro h
    refine ⟨(List.filter_sublist ..).trans (List.filter_sublist ..), ?_, fun p hp => ?_⟩
    · exact map_discharge fun p hp => (mem_idlePoints.mp hp).2.1
    · obtain ⟨hp, hknown, hcpu, g, hg, hquiet⟩ := mem_idlePoints.mp hp
      exact ⟨hcpu, g, hg, (allQuiet_iff hquiet).mpr (h p hp hknown hcpu g hg hquiet)⟩

/-- An adapter that is quiet beside one without a reading. -/
def halfRead : SessionData :=
  { (default : SessionData) with
    battery := [{ (default : BatteryPoint) with
      t := 0.0
      discharge := .measured 5.0 "battery" default }]
    cpu := [{ (default : CpuPoint) with t := 0.0, utility := .measured 2.0 "cpu" default }]
    gpu := [{ (default : GpuPoint) with
      t := 0.0
      adapters := [{ (default : GpuAdapterPoint) with totalUtil := .measured 0.0 "gpu" default },
        default] }] }

/-- A sample is taken for idle while nothing is known of one of the adapters. -/
theorem unread_taken_for_idle : ¬Idle halfRead (idleSubset halfRead) (idlePoints halfRead) := by
  intro h
  have hselected : ∃ p ∈ idlePoints halfRead, p.t = 0.0 := by decide +kernel
  obtain ⟨p, hp, -⟩ := hselected
  obtain ⟨-, g, ⟨⟨front, back, hsplit, -, -⟩, -⟩, -, hall⟩ := h.corroborated p hp
  have hg : g ∈ halfRead.gpu := hsplit ▸ List.mem_append_right _ List.mem_cons_self
  obtain rfl := List.mem_singleton.mp hg
  obtain ⟨v, hv, -⟩ := hall _ (List.mem_cons_of_mem _ List.mem_cons_self)
  cases hv

end PowerForensics.Analysis
