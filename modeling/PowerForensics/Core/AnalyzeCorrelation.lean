import PowerForensics.Binary64.Monotone
import PowerForensics.Binary64.Order
import PowerForensics.Core.AnalyzeChanges
import PowerForensics.Core.AnalyzeRange
import PowerForensics.System.Sweep

/-! # Correlation of two metrics

The samples of one metric are aligned with those of another by their times. A pointer sweeps
through the second metric, and the sample at it and the one before it are candidates. How many
samples are aligned, of those of the scarcer metric, is the coverage of the coefficient.
-/

namespace PowerForensics.Analyze

open Stats Session Sweep

/-! ## Alignment -/

def known (samples : List Sample) : List Sample := samples.filter fun p => p.value.isSome

def Sample.millis (p : Sample) : Nat := p.wallMs.toNat

/-- How far apart two samples are in milliseconds. -/
def absDiff (p q : Sample) : Nat := (p.millis - q.millis) + (q.millis - p.millis)

/-- A candidate that is in reach replaces the best one if it is nearer. -/
def closer (p : Sample) (tolMs : Nat) (best : Option Sample) (q : Option Sample) : Option Sample :=
  match q with
  | none => best
  | some q =>
      if absDiff q p ≤ tolMs ∧ ∀ b ∈ best, absDiff q p < absDiff b p then some q else best

def partner (ys : List Sample) (tolMs : Nat) (p : Sample) (j : Nat) : Option Sample :=
  [ys[j - 1]?, ys[j]?].foldl (closer p tolMs) none

/-- The known samples of a metric, each with the sample it is aligned with. -/
def alignment (x y : List Sample) (tolMs : Nat) : List (Sample × Option Sample) :=
  ((known x).zip (sweep Sample.millis (known y) 0 ((known x).map Sample.millis))).map fun e =>
    (e.1, partner (known y) tolMs e.1 e.2)

/-- The values of a sample and of the one it is aligned with. -/
def values (e : Sample × Option Sample) : Option (Binary64 × Binary64) := do
  let q ← e.2
  let a ← e.1.value
  let b ← q.value
  return (a, b)

def align (x y : List Sample) (tolMs : Nat) : List (Binary64 × Binary64) :=
  (alignment x y tolMs).filterMap values

/-! ## Coefficients -/

inductive Strength where
  | insufficient
  | negligible
  | weak
  | moderate
  | strong
  deriving DecidableEq

structure Correlation where
  x : String
  y : String
  label : String
  n : Nat
  effectiveN : Nat
  r : Option Binary64
  /-- The aligned samples of those of the scarcer metric. -/
  coverage : Binary64
  strength : Strength
  note : String

def minCorrelationSamples : Nat := 20
def minCorrelationCoverage : Binary64 := 0.5
def maxCadenceRatio : Binary64 := 3.0

def pearson (pairs : List (Binary64 × Binary64)) : Option Binary64 :=
  if pairs.length < 3 then none
  else
    let n := Binary64.ofNat pairs.length
    let mx := .sum (pairs.map Prod.fst) / n
    let my := .sum (pairs.map Prod.snd) / n
    let num := pairs.foldl (fun num p => num + (p.1 - mx) * (p.2 - my)) 0.0
    let dx := pairs.foldl (fun dx p => dx + (p.1 - mx) * (p.1 - mx)) 0.0
    let dy := pairs.foldl (fun dy p => dy + (p.2 - my) * (p.2 - my)) 0.0
    if dx ≤ 0.0 ∨ dy ≤ 0.0 then none
    else some ((num / (dx.sqrt * dy.sqrt)).clamp (-1.0) 1.0)

/-- The median of the times between known samples. -/
def medianDtMs (samples : List Sample) : Binary64 :=
  let ts := (known samples).map fun p => Binary64.ofNat p.millis
  if ts.length < 2 then 0.0
  else
    let d := ((ts.zip ts.tail).map fun w => w.2 - w.1).insertionSort fun a b =>
      a.totalRank ≤ b.totalRank
    d.getD (d.length / 2) 0.0

/-- How many times slower one metric is read than the other, if that is too much. -/
def unevenCadence (xw yw : List Sample) : Option Binary64 :=
  let cadenceX := medianDtMs xw
  let cadenceY := medianDtMs yw
  let ratio := max (cadenceX / cadenceY) (cadenceY / cadenceX)
  if (cadenceX > 0.0 ∧ cadenceY > 0.0) ∧ ratio > maxCadenceRatio then some ratio else none

def strengthOf (r : Option Binary64) : Strength :=
  match r.map Binary64.abs with
  | none => .insufficient
  | some v =>
      if (0.7 : Binary64) ≤ v then .strong
      else if (0.4 : Binary64) ≤ v then .moderate
      else if (0.2 : Binary64) ≤ v then .weak
      else .negligible

def noteOf : Strength → String
  | .negligible => "No meaningful linear relationship in this interval."
  | .insufficient => "Insufficient variance to estimate a relationship."
  | _ => "Correlation only; it does not establish that one metric caused the other."

/-- The coefficient of aligned values. -/
def correlate (empty : String → Correlation) (pairs : List (Binary64 × Binary64))
    (coverage : Binary64) : Correlation :=
  let xv := pairs.map Prod.fst
  let yv := pairs.map Prod.snd
  let r := pearson pairs
  let unique := min (uniqueCount xv) (uniqueCount yv)
  let rho := max (lag1Autocorr xv).abs (lag1Autocorr yv).abs
  let strength := strengthOf r
  { empty (noteOf strength) with
    n := pairs.length
    effectiveN := effectiveN pairs.length unique rho
    r
    coverage
    strength }

def correlationPair (series : List MetricSeries) (xKey yKey label : String) (fromMs toMs : UInt64)
    (tolMs : UInt64) (discontinuities : Nat) : Correlation :=
  let empty := fun note : String =>
    { x := xKey, y := yKey, label, n := 0, effectiveN := 0, r := none, coverage := 0.0,
      strength := Strength.insufficient, note : Correlation }
  match metricOf series xKey, metricOf series yKey with
  | some x, some y =>
      let xw := windowSamples x fromMs toMs
      let yw := windowSamples y fromMs toMs
      let knownX := (known xw).length
      let knownY := (known yw).length
      if knownX < 3 ∨ knownY < 3 then
        empty "insufficient evidence: no aligned samples in the interval"
      else
        match unevenCadence xw yw with
        | some ratio =>
            empty (s!"insufficient evidence: collector cadence differs by " ++
              s!"{String.ofList (ratio.fixed 1)}x")
        | none =>
            let pairs := align xw yw tolMs.toNat
            let n := pairs.length
            let coverage := Binary64.ofNat n / .ofNat (max (min knownX knownY) 1)
            if 0 < discontinuities then
              { empty "insufficient evidence: interval crosses a clock discontinuity" with
                n, coverage }
            else if n < minCorrelationSamples then
              { empty (s!"insufficient evidence: only {n} aligned samples " ++
                  s!"(need {minCorrelationSamples})") with n, coverage }
            else if coverage < minCorrelationCoverage then
              { empty (s!"insufficient evidence: only " ++
                  s!"{String.ofList ((coverage * 100.0).fixed 0)}% of samples align") with
                n, coverage }
            else correlate empty pairs coverage
  | _, _ => empty "metric not present"

/-- How far apart aligned samples may be. -/
def toleranceMs (series : List MetricSeries) : UInt64 :=
  let base := ((metricOf series "battery_discharge_w").map fun m => medianDtMs m.samples).getD 1000.0
  .ofNat ((max (base * 1.5) 2000.0).toUnsigned 64)

def correlationPairs : List (String × String × String) :=
  [("battery_discharge_w", "cpu_utility_pct", "Power vs CPU utility"),
    ("battery_discharge_w", "gpu_util_pct", "Power vs GPU utility"),
    ("battery_discharge_w", "display_brightness_pct", "Power vs display brightness"),
    ("battery_discharge_w", "net_rx_bps", "Power vs network RX"),
    ("battery_discharge_w", "storage_disk_time_pct", "Power vs disk activity")]

/-- The correlation of two metrics of a session. -/
def correlationOf (s : SessionData) (intervalMs fromMs toMs : UInt64)
    (pair : String × String × String) : Correlation :=
  let series := metricSeries s
  let rangeHasDisc := 0 < (rangeEnergy s intervalMs fromMs toMs).discontinuities
  correlationPair series pair.1 pair.2.1 pair.2.2 fromMs toMs (toleranceMs series)
    (if rangeHasDisc then 1 else 0)

def correlations (s : SessionData) (intervalMs fromMs toMs : UInt64) : List Correlation :=
  correlationPairs.map (correlationOf s intervalMs fromMs toMs)

/-! ## What a sample is aligned with -/

section Partner

variable {ys : List Sample} {tolMs : Nat} {p q : Sample} {j : Nat}

/-- The nearest of some candidates, if one is in reach. -/
structure Best (p : Sample) (tolMs : Nat) (seen : List (Option Sample)) (best : Option Sample) :
    Prop where
  found : ∀ c, best = some c → some c ∈ seen ∧ absDiff c p ≤ tolMs ∧
    ∀ q, some q ∈ seen → absDiff c p ≤ absDiff q p
  missed : best = none → ∀ q, some q ∈ seen → tolMs < absDiff q p

theorem best_nil : Best p tolMs [] none :=
  ⟨nofun, fun _ _ hq => absurd hq List.not_mem_nil⟩

theorem Best.step {seen : List (Option Sample)} {best : Option Sample}
    (h : Best p tolMs seen best) (q : Option Sample) :
    Best p tolMs (seen ++ [q]) (closer p tolMs best q) := by
  have hmem : ∀ u, some u ∈ seen ++ [q] ↔ some u ∈ seen ∨ q = some u := by
    intro u
    rw [List.mem_append, List.mem_singleton, eq_comm (a := some u)]
  cases q with
  | none =>
      have hsame : ∀ u, some u ∈ seen ++ [none] ↔ some u ∈ seen := by
        intro u
        simp
      constructor
      · intro c hc
        simp only [hsame]
        exact h.found c hc
      · intro hnone
        simp only [hsame]
        exact h.missed hnone
  | some q =>
      rw [closer]
      split
      next hnear =>
        constructor
        · rintro c ⟨⟩
          refine ⟨(hmem q).mpr (Or.inr rfl), hnear.1, ?_⟩
          intro u hu
          obtain hu | heq := (hmem u).mp hu
          · cases hbest : best with
            | none => exact hnear.1.trans (h.missed hbest u hu).le
            | some b => exact (hnear.2 b hbest).le.trans ((h.found b hbest).2.2 u hu)
          · exact (congrArg (absDiff · p) (Option.some.inj heq)).le
        · intro hnone
          cases hnone
      next hfar =>
        constructor
        · intro c hc
          obtain ⟨hin, hreach, hleast⟩ := h.found c hc
          refine ⟨(hmem c).mpr (Or.inl hin), hreach, ?_⟩
          intro u hu
          obtain hu | heq := (hmem u).mp hu
          · exact hleast u hu
          · obtain rfl := Option.some.inj heq
            -- a candidate that does not replace the best one is not nearer
            by_contra hlt
            refine hfar ⟨(not_le.mp hlt).le.trans hreach, ?_⟩
            rintro b hb
            obtain rfl := Option.some.inj (hb.symm.trans hc)
            exact not_le.mp hlt
        · intro hnone u hu
          obtain hu | heq := (hmem u).mp hu
          · exact h.missed hnone u hu
          · obtain rfl := Option.some.inj heq
            by_contra hreach
            refine hfar ⟨not_lt.mp hreach, ?_⟩
            rintro b hb
            rw [hnone] at hb
            cases hb

theorem best_partner (ys : List Sample) (tolMs : Nat) (p : Sample) (j : Nat) :
    Best p tolMs [ys[j - 1]?, ys[j]?] (partner ys tolMs p j) :=
  (best_nil.step _).step _

/-- A sample that may be aligned with another: no sample is nearer to it, or none is in reach. -/
structure IsPartner (ys : List Sample) (tolMs : Nat) (p : Sample) (best : Option Sample) :
    Prop where
  found : ∀ c, best = some c → c ∈ ys ∧ absDiff c p ≤ tolMs ∧ ∀ q ∈ ys, absDiff c p ≤ absDiff q p
  missed : best = none → ∀ q ∈ ys, tolMs < absDiff q p

/-- A later sample is in reach, and it is nearer than all that are not later, of which there is
one. -/
structure OverlookedBy (ys : List Sample) (tolMs : Nat) (p a b : Sample) : Prop where
  earlier : a ∈ ys ∧ a.millis ≤ p.millis
  later : b ∈ ys ∧ p.millis < b.millis
  reach : b.millis - p.millis ≤ tolMs
  nearer : ∀ q ∈ ys, q.millis ≤ p.millis → b.millis - p.millis < p.millis - q.millis

def Overlooked (ys : List Sample) (tolMs : Nat) (p : Sample) : Prop :=
  ∃ a b, OverlookedBy ys tolMs p a b

/-- The partner is as near as the sample that the pointer stands at. -/
theorem partner_as_near (hys : ys.Pairwise fun a b => a.millis ≤ b.millis) {tolMs j : Nat}
    {p y c : Sample} (hy : ys[j]? = some y) (hzero : p.millis < y.millis → j = 0)
    (hc : partner ys tolMs p j = some c) : c ∈ ys ∧ absDiff c p = absDiff y p := by
  obtain ⟨hin, -, hleast⟩ := (best_partner ys tolMs p j).found c hc
  have hle : absDiff c p ≤ absDiff y p := by
    apply hleast y
    rw [hy]
    exact List.mem_cons_of_mem _ List.mem_cons_self
  obtain hbefore | hat := List.mem_pair.mp hin
  · have hcy := before_reach hys hy hbefore.symm
    refine ⟨List.mem_of_getElem? hbefore.symm, le_antisymm hle ?_⟩
    by_cases hbeyond : p.millis < y.millis
    · rw [hzero hbeyond, Nat.zero_sub, ← hzero hbeyond, hy] at hbefore
      rw [Option.some.inj hbefore]
    · simp only [absDiff]
      omega
  · obtain rfl := Option.some.inj (hat.trans hy)
    exact ⟨List.mem_of_getElem? hy, rfl⟩

/-- Where nothing is overlooked, the sample that the pointer stands at is as near as any in
reach. -/
theorem nearest_of_kept {tolMs : Nat} {p y : Sample} (hstands : Stands Sample.millis ys p.millis y)
    (hkept : ¬Overlooked ys tolMs p) :
    ∀ q ∈ ys, absDiff q p ≤ tolMs → absDiff y p ≤ absDiff q p := by
  intro q hq hreach
  by_contra hlt
  have hqy := hstands.latest q hq
  have hyq := fun hbeyond => hstands.first hbeyond q hq
  rw [absDiff, absDiff] at hlt
  rw [absDiff] at hreach
  have hlater : p.millis < q.millis := by omega
  have hyp : y.millis ≤ p.millis := by omega
  refine hkept ⟨y, q, ⟨hstands.mem, hyp⟩, ⟨hq, hlater⟩, by omega, ?_⟩
  intro u hu hup
  have huy := hstands.latest u hu hup
  omega

theorem isPartner_iff (hys : ys.Pairwise fun a b => a.millis ≤ b.millis) (tolMs : Nat)
    (p : Sample) :
    IsPartner ys tolMs p (partner ys tolMs p (reach Sample.millis ys p.millis)) ↔
      ¬Overlooked ys tolMs p := by
  obtain rfl | hne := eq_or_ne ys []
  · have hnone : ¬Overlooked [] tolMs p := fun ⟨_, _, h⟩ => absurd h.earlier.1 List.not_mem_nil
    exact iff_of_true ⟨nofun, fun _ q hq => absurd hq List.not_mem_nil⟩ hnone
  obtain ⟨y, hy, hstands, hzero⟩ := stands_reach hys hne p.millis
  have hbest := best_partner ys tolMs p (reach Sample.millis ys p.millis)
  generalize hj : reach Sample.millis ys p.millis = j at hy hzero hbest ⊢
  have hseen : some y ∈ [ys[j - 1]?, ys[j]?] := by
    rw [hy]
    exact List.mem_cons_of_mem _ List.mem_cons_self
  constructor
  · rintro hpartner ⟨a, b, hearlier, hlater, hreach, hnearer⟩
    have hay := hstands.latest a hearlier.1 hearlier.2
    have hyp : y.millis ≤ p.millis := by
      by_contra hbeyond
      have hya := hstands.first (not_le.mp hbeyond) a hearlier.1
      omega
    -- the later sample is nearer than the one the pointer stands at, and is passed over
    have hyb := hnearer y hstands.mem hyp
    cases hc : partner ys tolMs p j with
    | none =>
        have hfar := hpartner.missed hc b hlater.1
        rw [absDiff] at hfar
        omega
    | some q =>
        have hle := (hpartner.found q hc).2.2 b hlater.1
        rw [(partner_as_near hys hy hzero hc).2, absDiff, absDiff] at hle
        omega
  · intro hkept
    have hnearest := nearest_of_kept hstands hkept
    constructor
    · intro c hc
      obtain ⟨hin, hsame⟩ := partner_as_near hys hy hzero hc
      obtain ⟨-, hreach, -⟩ := hbest.found c hc
      refine ⟨hin, hreach, ?_⟩
      intro q hq
      by_cases hnear : absDiff q p ≤ tolMs
      · exact hsame.le.trans (hnearest q hq hnear)
      · exact hreach.trans (not_le.mp hnear).le
    · intro hnone q hq
      have hfar := hbest.missed hnone y hseen
      by_contra hnear
      exact absurd (hnearest q hq (not_lt.mp hnear)) (by omega)

end Partner

/-! ## What a list of samples is aligned with -/

section Alignment

variable {x y : List Sample} {tolMs : Nat}

theorem mem_known {p : Sample} : p ∈ known x ↔ p ∈ x ∧ p.value.isSome := List.mem_filter

/-- Where the pointer stands for a sample, the greatest time so far decides. -/
theorem alignment_eq (x y : List Sample) (tolMs : Nat) : alignment x y tolMs =
    ((known x).zip (peaks ((known x).map Sample.millis))).map fun e =>
      (e.1, partner (known y) tolMs e.1 (reach Sample.millis (known y) e.2)) := by
  rw [alignment, sweep_eq, List.zip_map_right, List.map_map]
  rfl

/-- Of ascending samples each one decides itself. -/
theorem alignment_ascending (hx : x.Pairwise fun a b => a.millis ≤ b.millis) (y : List Sample)
    (tolMs : Nat) : alignment x y tolMs = (known x).map fun p =>
      (p, partner (known y) tolMs p (reach Sample.millis (known y) p.millis)) := by
  have hkeys : ((known x).map Sample.millis).Pairwise fun a b => a ≤ b :=
    List.pairwise_map.mpr (hx.filter _)
  rw [alignment_eq, peaks_ascending hkeys, ← List.map_prod_left_eq_zip, List.map_map]
  rfl

/-- Each known sample with a sample it may be aligned with, as pairs of values. -/
def NearestPairs (x y : List Sample) (tolMs : Nat) (out : List (Binary64 × Binary64)) : Prop :=
  ∃ partners, List.Forall₂ (IsPartner (known y) tolMs) (known x) partners ∧
    out = ((known x).zip partners).filterMap values

/-- Ascending samples are aligned with their nearest neighbours exactly if none overlooks a
later sample. -/
theorem align_nearest_iff (tolMs : Nat) (hx : x.Pairwise fun a b => a.millis ≤ b.millis)
    (hy : y.Pairwise fun a b => a.millis ≤ b.millis) :
    ((∀ e ∈ alignment x y tolMs, IsPartner (known y) tolMs e.1 e.2) ↔
        ∀ p ∈ known x, ¬Overlooked (known y) tolMs p) ∧
      ((∀ p ∈ known x, ¬Overlooked (known y) tolMs p) →
        NearestPairs x y tolMs (align x y tolMs)) := by
  have hknown : (known y).Pairwise fun a b => a.millis ≤ b.millis := hy.filter _
  rw [align, alignment_ascending hx]
  constructor
  · rw [List.forall_mem_map]
    exact forall₂_congr fun p _ => isPartner_iff hknown tolMs p
  · intro hnone
    refine ⟨(known x).map fun p => partner (known y) tolMs p
      (reach Sample.millis (known y) p.millis), ?_, by rw [List.map_prod_left_eq_zip]⟩
    rw [List.forall₂_map_right_iff, List.forall₂_same]
    exact fun p hp => (isPartner_iff hknown tolMs p).mpr (hnone p hp)

/-- A measured sample. -/
def sampleAt (wallMs : UInt64) (value : Binary64) : Sample := ⟨wallMs, some value, .measured⟩

/-- Two metrics that are read once a second, the second one a moment before the first. -/
def steadyX : List Sample :=
  [sampleAt 1000 5.0, sampleAt 2000 6.0, ⟨2500, none, .unavailable⟩, sampleAt 3000 5.5]

def steadyY : List Sample := [sampleAt 950 7.0, sampleAt 1980 8.0, sampleAt 3400 9.0]

theorem align_nearest_steady : NearestPairs steadyX steadyY 100 [(5.0, 7.0), (6.0, 8.0)] := by
  have halign : align steadyX steadyY 100 = [(5.0, 7.0), (6.0, 8.0)] := by decide +kernel
  have hfree : ∀ p ∈ known steadyX, ∀ b ∈ known steadyY,
      p.millis < b.millis → ¬b.millis - p.millis ≤ 100 := by decide
  rw [← halign]
  refine (align_nearest_iff 100 (by decide) (by decide)).2 fun p hp => ?_
  rintro ⟨a, b, hoverlooked⟩
  exact hfree p hp b hoverlooked.later.1 hoverlooked.later.2 hoverlooked.reach

/-- A sample a tenth of a second later is not found behind one a whole second earlier. -/
theorem next_sample_missed :
    ¬NearestPairs [sampleAt 1000 5.0] [sampleAt 0 7.0, sampleAt 1100 8.0] 200
      (align [sampleAt 1000 5.0] [sampleAt 0 7.0, sampleAt 1100 8.0] 200) := by
  have halign : align [sampleAt 1000 5.0] [sampleAt 0 7.0, sampleAt 1100 8.0] 200 = [] := by
    decide +kernel
  have hx : known [sampleAt 1000 5.0] = [sampleAt 1000 5.0] := rfl
  have hy : known [sampleAt 0 7.0, sampleAt 1100 8.0] = [sampleAt 0 7.0, sampleAt 1100 8.0] := rfl
  rintro ⟨partners, hpartners, hout⟩
  rw [halign, hx] at hout
  rw [hx, hy] at hpartners
  obtain ⟨best, rest, hbest, hrest, rfl⟩ := List.forall₂_cons_left_iff.mp hpartners
  obtain rfl := List.forall₂_nil_left_iff.mp hrest
  cases best with
  | none =>
      have hfar := hbest.missed rfl (sampleAt 1100 8.0) (List.mem_cons_of_mem _ List.mem_cons_self)
      exact absurd hfar (by decide)
  | some q =>
      obtain ⟨hq, -, -⟩ := hbest.found q rfl
      have hsome : ∀ q ∈ [sampleAt 0 7.0, sampleAt 1100 8.0], q.value.isSome := by decide
      obtain ⟨v, hv⟩ := Option.isSome_iff_exists.mp (hsome q hq)
      simp [values, sampleAt, hv] at hout

end Alignment

/-! ## Coverage -/

section Coverage

variable {x y xw yw : List Sample} {tolMs : Nat}

/-- One of the two samples at the pointer is in reach. -/
def inReach (ys : List Sample) (tolMs : Nat) (e : Sample × Nat) : Bool :=
  let j := reach Sample.millis ys e.2
  [ys[j - 1]?, ys[j]?].any fun q => q.any fun q => absDiff q e.1 ≤ tolMs

/-- How many samples find a sample in reach, by the greatest time so far. -/
def reached (x y : List Sample) (tolMs : Nat) : Nat :=
  ((known x).zip (peaks ((known x).map Sample.millis))).countP (inReach (known y) tolMs)

theorem isSome_partner (ys : List Sample) (tolMs : Nat) (e : Sample × Nat) :
    (partner ys tolMs e.1 (reach Sample.millis ys e.2)).isSome = inReach ys tolMs e := by
  have hbest := best_partner ys tolMs e.1 (reach Sample.millis ys e.2)
  rw [Bool.eq_iff_iff, inReach]
  simp only [List.any_eq_true, Option.any_eq_true, decide_eq_true_eq]
  cases hc : partner ys tolMs e.1 (reach Sample.millis ys e.2) with
  | none =>
      refine iff_of_false Bool.false_ne_true ?_
      rintro ⟨_, hin, q, rfl, hnear⟩
      exact absurd hnear (not_le.mpr (hbest.missed hc q hin))
  | some q =>
      obtain ⟨hin, hnear, -⟩ := hbest.found q hc
      exact iff_of_true rfl ⟨_, hin, q, rfl, hnear⟩

theorem length_align (x y : List Sample) (tolMs : Nat) :
    (align x y tolMs).length = reached x y tolMs := by
  rw [align, alignment_eq, List.length_filterMap_eq_countP, List.countP_map, reached]
  refine List.countP_congr fun e he => ?_
  have hx : e.1.value.isSome := (mem_known.mp (List.of_mem_zip he).1).2
  rw [← isSome_partner, Function.comp_apply, values]
  dsimp only
  cases hc : partner (known y) tolMs e.1 (reach Sample.millis (known y) e.2) with
  | none => rfl
  | some q =>
      obtain ⟨hin, -, -⟩ := (best_partner _ _ _ _).found q hc
      have hq : q ∈ known y := by
        obtain hin | hin := List.mem_pair.mp hin
        · exact List.mem_of_getElem? hin.symm
        · exact List.mem_of_getElem? hin.symm
      obtain ⟨a, ha⟩ := Option.isSome_iff_exists.mp hx
      obtain ⟨b, hb⟩ := Option.isSome_iff_exists.mp (mem_known.mp hq).2
      simp [ha, hb]

/-- Two metrics of which a coefficient is sought: they are known and read alike. -/
structure Compared (series : List MetricSeries) (xKey yKey : String) (fromMs toMs : UInt64)
    (xw yw : List Sample) : Prop where
  x : ∃ m, metricOf series xKey = some m ∧ xw = windowSamples m fromMs toMs
  y : ∃ m, metricOf series yKey = some m ∧ yw = windowSamples m fromMs toMs
  enough : 3 ≤ (known xw).length ∧ 3 ≤ (known yw).length
  alike : unevenCadence xw yw = none

theorem correlationPair_compared {series : List MetricSeries} {xKey yKey : String}
    {fromMs toMs : UInt64} (label : String) (tolMs : UInt64) (discontinuities : Nat)
    (h : Compared series xKey yKey fromMs toMs xw yw) :
    let corr := correlationPair series xKey yKey label fromMs toMs tolMs discontinuities
    corr.n = reached xw yw tolMs.toNat ∧ corr.coverage = .ofNat (reached xw yw tolMs.toNat) /
      .ofNat (min (known xw).length (known yw).length) := by
  obtain ⟨⟨mx, hx, rfl⟩, ⟨my, hy, rfl⟩, henough, halike⟩ := h
  intro corr
  have hfew : ¬((known (windowSamples mx fromMs toMs)).length < 3 ∨
      (known (windowSamples my fromMs toMs)).length < 3) := by
    omega
  have hmax : max (min (known (windowSamples mx fromMs toMs)).length
      (known (windowSamples my fromMs toMs)).length) 1 =
      min (known (windowSamples mx fromMs toMs)).length
        (known (windowSamples my fromMs toMs)).length := by
    omega
  simp only [corr, correlationPair, hx, hy, if_neg hfew, halike, hmax, length_align]
  split
  · exact ⟨rfl, rfl⟩
  · split
    · exact ⟨rfl, rfl⟩
    · split
      · exact ⟨rfl, rfl⟩
      · exact ⟨length_align _ _ _, rfl⟩

theorem correlationPair_empty {series : List MetricSeries} {xKey yKey : String}
    {fromMs toMs : UInt64} (label : String) (tolMs : UInt64) (discontinuities : Nat)
    (h : ∀ xw yw, ¬Compared series xKey yKey fromMs toMs xw yw) :
    let corr := correlationPair series xKey yKey label fromMs toMs tolMs discontinuities
    corr.n = 0 ∧ corr.coverage = 0.0 := by
  intro corr
  simp only [corr, correlationPair]
  split
  next mx my hx hy =>
    split
    · exact ⟨rfl, rfl⟩
    next hfew =>
      split
      · exact ⟨rfl, rfl⟩
      next halike =>
        exact absurd ⟨⟨mx, hx, rfl⟩, ⟨my, hy, rfl⟩, by omega, halike⟩ (h _ _)
  · exact ⟨rfl, rfl⟩

theorem Compared.unique {series : List MetricSeries} {xKey yKey : String}
    {fromMs toMs : UInt64} {xw' yw' : List Sample}
    (h : Compared series xKey yKey fromMs toMs xw yw)
    (h' : Compared series xKey yKey fromMs toMs xw' yw') : xw' = xw ∧ yw' = yw := by
  obtain ⟨⟨mx, hx, rfl⟩, ⟨my, hy, rfl⟩, -, -⟩ := h
  obtain ⟨⟨mx', hx', rfl⟩, ⟨my', hy', rfl⟩, -, -⟩ := h'
  obtain rfl := Option.some.inj (hx.symm.trans hx')
  obtain rfl := Option.some.inj (hy.symm.trans hy')
  exact ⟨rfl, rfl⟩

theorem plus_ofNat (n : Nat) : (Binary64.ofNat n).Plus := Binary64.plus_ofUnits _ _

theorem ofNat_ne_zero {n : Nat} (hn : 1 ≤ n) : (Binary64.ofNat n).magnitude ≠ 0 := by
  have hone : (Binary64.ofNat 1).magnitude ≠ 0 := by decide +kernel
  have hle := ((plus_ofNat 1).le_iff (plus_ofNat n)).mp (Binary64.ofNat_mono hn)
  omega

/-- A share of a count is a fraction exactly if it is finite and not more than the count. -/
theorem fraction_ofNat_iff {n d : Nat} (hd : 1 ≤ d) :
    ((0.0 : Binary64) ≤ .ofNat n / .ofNat d ∧ .ofNat n / .ofNat d ≤ (1.0 : Binary64) ∧ n ≤ d) ↔
      n ≤ d ∧ (Binary64.ofNat n).isFinite := by
  constructor
  · rintro ⟨hlower, -, hle⟩
    refine ⟨hle, ?_⟩
    by_contra hinfinite
    -- infinitely many of infinitely many are no number
    have hn := (Binary64.finite_or_infinite (plus_ofNat n).1).resolve_left hinfinite
    have hdinf : (Binary64.ofNat d).isInfinite = true := by
      refine (Binary64.finite_or_infinite (plus_ofNat d).1).resolve_left fun hfinite => hinfinite ?_
      exact Binary64.finite_of_le (plus_ofNat n) (Binary64.ofNat_mono hle) hfinite
    have hnan : Binary64.ofNat n / .ofNat d = .nan := by
      change Binary64.div _ _ = _
      simp [Binary64.div, (plus_ofNat n).1, (plus_ofNat d).1, hn, hdinf]
    have hnumber := hlower.2.1
    rw [hnan, Binary64.isNaN_nan] at hnumber
    cases hnumber
  · rintro ⟨hle, hfinite⟩
    obtain ⟨hlower, hupper⟩ := Binary64.div_le_one_number (plus_ofNat n) hfinite
      (Binary64.ofNat_mono hle) (plus_ofNat d) (ofNat_ne_zero hd)
    exact ⟨hlower, hupper, hle⟩

/-- The known samples of a metric in a range. -/
def knownIn (s : SessionData) (fromMs toMs : UInt64) (key : String) : Nat :=
  ((metricOf (metricSeries s) key).map fun m => (known (windowSamples m fromMs toMs)).length).getD 0

/-- A coverage between nothing and all of the scarcer metric. -/
structure Fraction (corr : Correlation) (scarcer : Nat) : Prop where
  lower : (0.0 : Binary64) ≤ corr.coverage
  upper : corr.coverage ≤ (1.0 : Binary64)
  pairs : corr.n ≤ scarcer

/-- The coverage is a fraction exactly if no more samples of the first metric find one in reach
than there are of the scarcer metric, as many as a number can count. -/
theorem coverage_fraction_iff (s : SessionData) (intervalMs fromMs toMs : UInt64)
    (xKey yKey label : String) :
    Fraction (correlationOf s intervalMs fromMs toMs (xKey, yKey, label))
        (min (knownIn s fromMs toMs xKey) (knownIn s fromMs toMs yKey)) ↔
      ∀ xw yw, Compared (metricSeries s) xKey yKey fromMs toMs xw yw →
        reached xw yw (toleranceMs (metricSeries s)).toNat ≤
            min (known xw).length (known yw).length ∧
          (Binary64.ofNat (reached xw yw (toleranceMs (metricSeries s)).toNat)).isFinite := by
  rw [correlationOf]
  dsimp only
  generalize toleranceMs (metricSeries s) = tolMs
  generalize (if 0 < (rangeEnergy s intervalMs fromMs toMs).discontinuities then 1 else 0) = breaks
  by_cases hcompared : ∃ xw yw, Compared (metricSeries s) xKey yKey fromMs toMs xw yw
  · obtain ⟨xw, yw, h⟩ := hcompared
    obtain ⟨hn, hcoverage⟩ := correlationPair_compared label tolMs breaks h
    have hscarcer : min (knownIn s fromMs toMs xKey) (knownIn s fromMs toMs yKey) =
        min (known xw).length (known yw).length := by
      obtain ⟨⟨mx, hx, rfl⟩, ⟨my, hy, rfl⟩, -, -⟩ := h
      simp only [knownIn, hx, hy, Option.map_some, Option.getD_some]
    have hpos : 1 ≤ min (known xw).length (known yw).length := by
      have henough := h.enough
      omega
    rw [hscarcer]
    constructor
    · rintro ⟨hlower, hupper, hpairs⟩ xw' yw' h'
      obtain ⟨rfl, rfl⟩ := h.unique h'
      rw [hcoverage] at hlower hupper
      exact (fraction_ofNat_iff hpos).mp ⟨hlower, hupper, hn ▸ hpairs⟩
    · intro hkept
      obtain ⟨hlower, hupper, hpairs⟩ := (fraction_ofNat_iff hpos).mpr (hkept xw yw h)
      exact ⟨hcoverage ▸ hlower, hcoverage ▸ hupper, hn ▸ hpairs⟩
  · have hnone : ∀ xw yw, ¬Compared (metricSeries s) xKey yKey fromMs toMs xw yw :=
      fun xw yw h => hcompared ⟨xw, yw, h⟩
    obtain ⟨hn, hcoverage⟩ := correlationPair_empty label tolMs breaks hnone
    refine iff_of_true ⟨?_, ?_, ?_⟩ fun xw yw h => absurd h (hnone xw yw)
    · rw [hcoverage]
      decide +kernel
    · rw [hcoverage]
      decide +kernel
    · rw [hn]
      exact Nat.zero_le _

/-- Two readings of the power for each one of the utility. -/
def doubledCadence : SessionData :=
  { (default : SessionData) with
    wallBaseMs := 1000
    battery := [0.0, 1.0, 2.0, 3.0, 4.0, 5.0].map fun t => tenWatts t 0
    cpu := [0.0, 2.0, 4.0].map fun t => cpuAt t (some 5.0) none }

/-- Six aligned samples of three are a coverage of two. -/
theorem coverage_of_two : ¬Fraction
    (correlationOf doubledCadence 1000 1000 6000
      ("battery_discharge_w", "cpu_utility_pct", "Power vs CPU utility"))
    (min (knownIn doubledCadence 1000 6000 "battery_discharge_w")
      (knownIn doubledCadence 1000 6000 "cpu_utility_pct")) := by
  intro h
  have hupper := h.upper
  exact absurd hupper (by decide +kernel)

end Coverage

end PowerForensics.Analyze
