import Mathlib.Algebra.Order.Field.Basic
import Mathlib.Data.List.Chain
import PowerForensics.Binary64.Values
import PowerForensics.Core.Stats

/-! # The stamps of samples

A worker stamps what it has collected with the middle of the collection, once on the session clock
and once on the wall clock. Both stamps are computed from instants that are cut to milliseconds, in
different ways, so that they drift apart by a few milliseconds, but never by what a collection
takes. Instants are exact times, or counts of nanoseconds as the machine has them.
-/

namespace PowerForensics.Sched

open Binary64

/-! ## The worker -/

/-- One collected sample with its acquisition timing. -/
structure Timed (α P : Type) where
  collector : String
  tStartMs : Nat
  tEndMs : Nat
  monoMs : Nat
  wallMs : Nat
  collectMs : α
  payload : P

/-- What the collector does: it starts and ends at instants of the session clock. -/
structure Collection (I P : Type) where
  start : I
  stop : I
  payload : P

/-- How instants are turned to milliseconds. -/
structure Clock (I α : Type) where
  asMillis : I → Nat
  saturatingAdd : Nat → Nat → Nat
  collectMs : I → α
  /-- Whether a number is finite and above zero. -/
  isPositive : α → Bool
  /-- Half of a number, cut to an integer. -/
  half : α → Nat

section Worker

variable {I α P : Type} (clock : Clock I α)

def Clock.alignedWallMs (endWallMs : Nat) (collectMs : α) : Nat :=
  let half := if clock.isPositive collectMs then clock.half collectMs else 0
  endWallMs - half

variable [Add I] [Sub I]

/-- The sample of a collection; the wall clock is ahead of the session clock by the offset. -/
def Clock.sample (collector : String) (offset : I) (c : Collection I P) : Timed α P :=
  let dt := c.stop - c.start
  let startMs := clock.asMillis (c.stop - dt)
  let endMs := clock.asMillis c.stop
  { collector
    tStartMs := startMs
    tEndMs := endMs
    monoMs := clock.saturatingAdd startMs endMs / 2
    wallMs := clock.alignedWallMs (clock.asMillis (offset + c.stop)) (clock.collectMs dt)
    collectMs := clock.collectMs dt
    payload := c.payload }

def Clock.worker (collector : String) (offset : I) (run : List (Collection I P)) :
    List (Timed α P) :=
  run.map (clock.sample collector offset)

/-- A worker collects one thing after another. -/
structure IsRun [LE I] [Zero I] (run : List (Collection I P)) : Prop where
  proper : ∀ c ∈ run, 0 ≤ c.start ∧ c.start ≤ c.stop
  ordered : run.IsChain fun c d => c.stop ≤ d.start

end Worker

/-! ## The clocks -/

def exactClock : Clock ℚ ℚ where
  asMillis t := ⌊t⌋₊
  saturatingAdd a b := a + b
  collectMs d := d
  isPositive d := 0 < d
  half d := ⌊d / 2⌋₊

def asSecsF64 (nanos : Nat) : Binary64 :=
  ofNat (nanos / 10 ^ 9) + ofNat (nanos % 10 ^ 9) / ofNat (10 ^ 9)

def machineClock : Clock Nat Binary64 where
  asMillis nanos := nanos / 10 ^ 6 % 2 ^ 64
  saturatingAdd a b := min (a + b) (2 ^ 64 - 1)
  collectMs nanos := asSecsF64 nanos * 1000.0
  isPositive x := x.isFinite ∧ (0.0 : Binary64) < x
  half x := (x / 2.0).toUnsigned 64

/-! ## Stamps of exact instants -/

/-- What is taken off the wall clock is half of a duration, up to how it is cut. -/
structure HalfOf (d : ℚ) (half : Nat) : Prop where
  low : d < 2 * half + 3
  high : 2 * half ≤ d + 1

/-- The stamps that a collection between two instants has. -/
structure StampedAs {α P : Type} (offset start stop : ℚ) (t : Timed α P) : Prop where
  mono : t.monoMs = (⌊start⌋₊ + ⌊stop⌋₊) / 2
  wall : ∃ half, HalfOf (stop - start) half ∧ t.wallMs = ⌊offset + stop⌋₊ - half

section Stamps

variable {α P : Type} {offset start stop start' stop' : ℚ} {t t' : Timed α P}

theorem HalfOf.le {d : ℚ} {half : Nat} (h : HalfOf d half) (hd : 0 ≤ d) : (half : ℚ) ≤ d := by
  rcases Nat.eq_zero_or_pos half with rfl | hpos
  · exact_mod_cast hd
  · have hone : (1 : ℚ) ≤ half := by exact_mod_cast hpos
    have hhigh := h.high
    linarith

/-- The two stamps are apart by the offset, up to three milliseconds. -/
theorem StampedAs.near (h : StampedAs offset start stop t) (hoffset : 0 ≤ offset)
    (hstart : 0 ≤ start) (hle : start ≤ stop) : |(t.wallMs : ℚ) - t.monoMs - offset| ≤ 3 := by
  obtain ⟨hmono, half, hhalf, hwall⟩ := h
  have hstop : 0 ≤ stop := hstart.trans hle
  have htaken : half ≤ ⌊offset + stop⌋₊ := by
    have hduration := hhalf.le (sub_nonneg.mpr hle)
    exact Nat.le_floor (by linarith)
  have hdouble : 2 * t.monoMs ≤ ⌊start⌋₊ + ⌊stop⌋₊ ∧ ⌊start⌋₊ + ⌊stop⌋₊ ≤ 2 * t.monoMs + 1 := by
    rw [hmono]
    omega
  have hlow : (2 * t.monoMs : ℚ) ≤ ⌊start⌋₊ + ⌊stop⌋₊ := by exact_mod_cast hdouble.1
  have hhigh : (⌊start⌋₊ + ⌊stop⌋₊ : ℚ) ≤ 2 * t.monoMs + 1 := by exact_mod_cast hdouble.2
  have hstartLow := Nat.floor_le hstart
  have hstartHigh := Nat.lt_floor_add_one start
  have hstopLow := Nat.floor_le hstop
  have hstopHigh := Nat.lt_floor_add_one stop
  have hwallLow := Nat.floor_le (add_nonneg hoffset hstop)
  have hwallHigh := Nat.lt_floor_add_one (offset + stop)
  have hhalfLow := hhalf.low
  have hhalfHigh := hhalf.high
  rw [hwall, Nat.cast_sub htaken, abs_le]
  constructor <;> linarith

/-- A later collection has no earlier stamps. -/
theorem StampedAs.le (h : StampedAs offset start stop t) (h' : StampedAs offset start' stop' t')
    (hoffset : 0 ≤ offset) (hstart : 0 ≤ start) (hle : start ≤ stop) (hnext : stop ≤ start')
    (hle' : start' ≤ stop') : t.monoMs ≤ t'.monoMs ∧ t.wallMs ≤ t'.wallMs := by
  obtain ⟨hmono, half, -, hwall⟩ := h
  obtain ⟨hmono', half', hhalf', hwall'⟩ := h'
  constructor
  · have hstarts := Nat.floor_mono (hle.trans hnext)
    have hstops := Nat.floor_mono (hnext.trans hle')
    rw [hmono, hmono']
    omega
  · -- the later completion is behind the earlier one by at least what is taken off it
    have hroom : ⌊offset + stop⌋₊ + half' ≤ ⌊offset + stop'⌋₊ := by
      have hduration := hhalf'.le (sub_nonneg.mpr hle')
      have hbefore := Nat.floor_le (add_nonneg hoffset (hstart.trans hle))
      refine Nat.le_floor ?_
      rw [Nat.cast_add]
      linarith
    rw [hwall, hwall']
    omega

end Stamps

section Runs

variable {I α P : Type}

/-- Neither of the stamps of a sample is behind the one of another sample. -/
def Timed.NotAfter (t t' : Timed α P) : Prop := t.monoMs ≤ t'.monoMs ∧ t.wallMs ≤ t'.wallMs

instance : @Trans (Timed α P) (Timed α P) (Timed α P) Timed.NotAfter Timed.NotAfter
    Timed.NotAfter :=
  ⟨fun h h' => ⟨h.1.trans h'.1, h.2.trans h'.2⟩⟩

/-- The stamps of a run do not fall, and are apart by the offset up to three milliseconds. -/
def InStep (offset : ℚ) (samples : List (Timed α P)) : Prop :=
  samples.Pairwise Timed.NotAfter ∧
    ∀ t ∈ samples, |(t.wallMs : ℚ) - t.monoMs - offset| ≤ 3

theorem classifyStep_of_near {mono maxGapSecs maxSkewSecs : ℚ} {wallDt : Option ℚ} (wall : ℚ)
    (hmono : 0 ≤ mono) (hwall : 0 ≤ wall) (hnear : |wall - mono| ≤ maxSkewSecs)
    (hstep : wallDt = some wall ∨ wallDt = none) {kind : Stats.DiscontinuityKind}
    (hkind : Stats.classifyStep mono wallDt maxGapSecs maxSkewSecs = some kind) :
    kind = .samplingGap := by
  have hzero : (0.0 : ℚ) = 0 := by norm_num
  obtain ⟨hlow, hhigh⟩ := abs_le.mp hnear
  have hforward : ¬(mono < (0.0 : ℚ) ∨ wallDt.any (· < (0.0 : ℚ)) = true) := by
    rw [hzero]
    rcases hstep with rfl | rfl
    · simpa using ⟨hmono, hwall⟩
    · simpa using hmono
  rcases hstep with rfl | rfl
  · rw [Stats.classifyStep, if_neg hforward] at hkind
    rw [if_neg (not_lt.mpr hhigh), if_neg (not_lt.mpr (by linarith))] at hkind
    split at hkind
    · exact (Option.some.inj hkind).symm
    · cases hkind
  · rw [Stats.classifyStep, if_neg hforward] at hkind
    split at hkind
    · exact (Option.some.inj hkind).symm
    · cases hkind

/-- Two samples of a run are never taken for a step of a clock, at most for a gap. -/
theorem InStep.no_clock_step {offset : ℚ} {samples : List (Timed α P)} (h : InStep offset samples)
    {t t' : Timed α P} (hmem : [t, t'].Sublist samples) (maxGapSecs : ℚ) {maxSkewSecs : ℚ}
    (hskew : 6 / 1000 ≤ maxSkewSecs) {kind : Stats.DiscontinuityKind}
    (hkind : Stats.classifyStep ((t'.monoMs : ℚ) / 1000 - t.monoMs / 1000)
      (Stats.wallStep ((t.wallMs : ℚ) / 1000) (t'.wallMs / 1000)) maxGapSecs maxSkewSecs =
        some kind) : kind = .samplingGap := by
  obtain ⟨hordered, hnear⟩ := h
  obtain ⟨hmono, hwall⟩ : t.NotAfter t' := by simpa using hordered.sublist hmem
  obtain ⟨hlow, hhigh⟩ := abs_le.mp (hnear t (hmem.subset (by simp)))
  obtain ⟨hlow', hhigh'⟩ := abs_le.mp (hnear t' (hmem.subset (by simp)))
  have hmono' : (t.monoMs : ℚ) ≤ t'.monoMs := Nat.cast_le.mpr hmono
  have hwall' : (t.wallMs : ℚ) ≤ t'.wallMs := Nat.cast_le.mpr hwall
  refine classifyStep_of_near ((t'.wallMs : ℚ) / 1000 - t.wallMs / 1000) (by linarith) (by linarith)
    (abs_le.mpr ⟨by linarith, by linarith⟩) ?_ hkind
  rw [Stats.wallStep]
  split
  · exact Or.inl rfl
  · exact Or.inr rfl

variable [Add I] [Sub I] [LE I] [Zero I] {clock : Clock I α} {offset : I}
  {run : List (Collection I P)}

/-- A run is in step where its collections have the stamps of their exact instants. -/
theorem worker_in_step (time : I → ℚ) (htime : ∀ a b : I, a ≤ b → time a ≤ time b)
    (hzero : ∀ a : I, 0 ≤ a → 0 ≤ time a) (hoffset : 0 ≤ offset) (hrun : IsRun run)
    (collector : String) (hstamps : ∀ c ∈ run, StampedAs (time offset) (time c.start)
      (time c.stop) (clock.sample collector offset c)) :
    InStep (time offset) (clock.worker collector offset run) := by
  constructor
  · rw [← List.isChain_iff_pairwise, Clock.worker, List.isChain_map]
    refine hrun.ordered.imp_of_mem_imp fun c d hc hd hnext => ?_
    obtain ⟨hstart, hle⟩ := hrun.proper c hc
    exact (hstamps c hc).le (hstamps d hd) (hzero _ hoffset) (hzero _ hstart) (htime _ _ hle)
      (htime _ _ hnext) (htime _ _ (hrun.proper d hd).2)
  · intro t ht
    obtain ⟨c, hc, rfl⟩ := List.mem_map.mp ht
    obtain ⟨hstart, hle⟩ := hrun.proper c hc
    exact (hstamps c hc).near (hzero _ hoffset) (hzero _ hstart) (htime _ _ hle)

end Runs

/-! ## Both clocks -/

section Clocks

variable {P : Type} (collector : String)

theorem exactClock_stamps {offset : ℚ} {c : Collection ℚ P} (hle : c.start ≤ c.stop) :
    StampedAs offset c.start c.stop (exactClock.sample collector offset c) where
  mono := by
    have hstart : c.stop - (c.stop - c.start) = c.start := sub_sub_cancel _ _
    change (⌊c.stop - (c.stop - c.start)⌋₊ + ⌊c.stop⌋₊) / 2 = _
    rw [hstart]
  wall := by
    refine ⟨_, ?_, rfl⟩
    have hduration : 0 ≤ c.stop - c.start := sub_nonneg.mpr hle
    change HalfOf (c.stop - c.start) (if decide (0 < c.stop - c.start) then _ else 0)
    split
    · have hlow := Nat.floor_le (div_nonneg hduration zero_le_two)
      have hhigh := Nat.lt_floor_add_one ((c.stop - c.start) / 2)
      change HalfOf _ ⌊(c.stop - c.start) / 2⌋₊
      exact ⟨by linarith, by linarith⟩
    next hzero =>
      have hnothing : c.stop - c.start ≤ 0 := not_lt.mp (mt decide_eq_true hzero)
      exact ⟨by rw [Nat.cast_zero]; linarith, by rw [Nat.cast_zero]; linarith⟩

theorem literals : (1000.0 : Binary64) = ofNat 1000 ∧ (2.0 : Binary64) = ofNat 2 ∧
    ∀ n ∈ [2, 1000, 10 ^ 9], (ofNat n).magnitude ≠ 0 := by
  decide +kernel

/-- The seconds of a duration are rounded by less than a millisecond. -/
theorem asSecsF64_near {nanos : Nat} (hlt : nanos < 2 ^ 50 * 10 ^ 6) :
    Proper (asSecsF64 nanos) ∧ |value (asSecsF64 nanos) - nanos / 10 ^ 9| ≤ 1 / 2 ^ 11 := by
  have hsplit : nanos = 10 ^ 9 * (nanos / 10 ^ 9) + nanos % 10 ^ 9 :=
    (Nat.div_add_mod nanos (10 ^ 9)).symm
  have hsecs : nanos / 10 ^ 9 < 2 ^ 41 := by omega
  have hrest : nanos % 10 ^ 9 < 10 ^ 9 := Nat.mod_lt _ (by decide)
  rw [asSecsF64]
  generalize nanos / 10 ^ 9 = secs at hsplit hsecs
  generalize nanos % 10 ^ 9 = rest at hsplit hrest
  subst hsplit
  obtain ⟨hsecsProper, hsecsValue⟩ := ofNat_proper (n := secs) (by omega)
  obtain ⟨hrestProper, hrestValue⟩ := ofNat_proper (n := rest) (by omega)
  obtain ⟨hbillionProper, hbillionValue⟩ := ofNat_proper (n := 10 ^ 9) (by decide)
  have hbillion : (ofNat (10 ^ 9)).magnitude ≠ 0 := literals.2.2 _ (by decide)
  have hsecs' : (secs : ℚ) < 2 ^ 41 := by exact_mod_cast hsecs
  have hrest' : (rest : ℚ) < 10 ^ 9 := by exact_mod_cast hrest
  have hpart : (rest : ℚ) / 10 ^ 9 < 1 := (div_lt_one (by positivity)).mpr hrest'
  obtain ⟨hquotientProper, hquotient⟩ := div_near (k := 0) hrestProper hbillionProper hbillion
    (by decide) (by rw [hrestValue, hbillionValue]; exact_mod_cast hpart)
  rw [hrestValue, hbillionValue] at hquotient
  push_cast at hquotient
  obtain ⟨hquotientLow, hquotientHigh⟩ := abs_le.mp hquotient
  obtain ⟨hsumProper, hsum⟩ := add_near (k := 42) hsecsProper hquotientProper (by decide) (by
    rw [hsecsValue]
    push_cast
    linarith)
  rw [hsecsValue] at hsum
  push_cast at hsum
  obtain ⟨hsumLow, hsumHigh⟩ := abs_le.mp hsum
  refine ⟨hsumProper, ?_⟩
  have hexact : ((10 ^ 9 * secs + rest : ℕ) : ℚ) / 10 ^ 9 = secs + rest / 10 ^ 9 := by
    push_cast
    ring
  rw [hexact, abs_le]
  constructor <;> linarith

/-- The milliseconds of a duration are rounded by less than one. -/
theorem collectMs_near {nanos : Nat} (hlt : nanos < 2 ^ 50 * 10 ^ 6) :
    Proper (machineClock.collectMs nanos) ∧
      |value (machineClock.collectMs nanos) - nanos / 10 ^ 6| ≤ 3 / 4 := by
  obtain ⟨hsecsProper, hsecs⟩ := asSecsF64_near hlt
  obtain ⟨hthousandProper, hthousandValue⟩ := ofNat_proper (n := 1000) (by decide)
  have hthousandPos : (ofNat 1000).magnitude ≠ 0 := literals.2.2 _ (by decide)
  have hmillis : machineClock.collectMs nanos = asSecsF64 nanos * ofNat 1000 :=
    congrArg (asSecsF64 nanos * ·) literals.1
  have hnanos : (nanos : ℚ) < 2 ^ 50 * 10 ^ 6 := by exact_mod_cast hlt
  rw [hmillis]
  generalize asSecsF64 nanos = secs at hsecsProper hsecs
  obtain ⟨hsecsLow, hsecsHigh⟩ := abs_le.mp hsecs
  obtain ⟨hproper, hnear⟩ := mul_near (k := 52) hsecsProper hthousandProper hthousandPos
    (by decide) (by
      rw [hthousandValue]
      push_cast
      linarith)
  rw [hthousandValue] at hnear
  push_cast at hnear
  obtain ⟨hlow, hhigh⟩ := abs_le.mp hnear
  refine ⟨hproper, abs_le.mpr ?_⟩
  constructor <;> linarith

/-- What the machine takes off is half of the duration, up to how it is cut. -/
theorem halfOf_machine {x : Binary64} {d : ℚ} (hx : Proper x) (hnear : |value x - d| ≤ 3 / 4)
    (hd : 0 ≤ d) (hlt : d < 2 ^ 50) :
    HalfOf d (if machineClock.isPositive x then machineClock.half x else 0) := by
  obtain ⟨hlow, hhigh⟩ := abs_le.mp hnear
  split
  · obtain ⟨htwoProper, htwoValue⟩ := ofNat_proper (n := 2) (by decide)
    have htwoPos : (ofNat 2).magnitude ≠ 0 := literals.2.2 _ (by decide)
    have hhalf : machineClock.half x = (x / ofNat 2).toUnsigned 64 :=
      congrArg (fun y => (x / y).toUnsigned 64) literals.2.1
    obtain ⟨hproper, hquotient⟩ := div_near (k := 51) hx htwoProper htwoPos (by decide) (by
      rw [htwoValue]
      push_cast
      linarith)
    rw [htwoValue] at hquotient
    push_cast at hquotient
    obtain ⟨hquotientLow, hquotientHigh⟩ := abs_le.mp hquotient
    have hcut : (x / ofNat 2).toUnsigned 64 = ⌊value (x / ofNat 2)⌋₊ := by
      refine toUnsigned_eq_floor hproper ?_
      push_cast
      linarith
    have hfloorLow := Nat.floor_le (value_nonneg (x / ofNat 2))
    have hfloorHigh := Nat.lt_floor_add_one (value (x / ofNat 2))
    rw [hhalf, hcut]
    exact ⟨by linarith, by linarith⟩
  next hpositive =>
    have hzero : x.magnitude = 0 := by
      by_contra hne
      refine hpositive (decide_eq_true ⟨hx.2, patterns.2.1.2.1, hx.1.1, ?_⟩)
      rw [patterns.2.1.1, hx.1.rank_eq]
      omega
    have hvalue : value x = 0 := by
      rw [value, hzero, units, if_pos (by decide), Nat.cast_zero, zero_div]
    rw [hvalue] at hlow hhigh
    constructor
    · rw [Nat.cast_zero]
      linarith
    · rw [Nat.cast_zero]
      linarith

theorem floor_millis (nanos : Nat) : ⌊(nanos : ℚ) / 10 ^ 6⌋₊ = nanos / 10 ^ 6 := by
  have hfloor := Nat.floor_div_eq_div (K := ℚ) nanos (10 ^ 6)
  push_cast at hfloor
  exact hfloor

/-- Below `2 ^ 50` milliseconds nothing wraps around. -/
theorem asMillis_eq {nanos : Nat} (hlt : nanos < 2 ^ 50 * 10 ^ 6) :
    machineClock.asMillis nanos = ⌊(nanos : ℚ) / 10 ^ 6⌋₊ := by
  rw [floor_millis]
  exact Nat.mod_eq_of_lt (by omega)

theorem machineClock_stamps {offset : Nat} {c : Collection Nat P} (hle : c.start ≤ c.stop)
    (hlt : offset + c.stop < 2 ^ 50 * 10 ^ 6) :
    StampedAs ((offset : ℚ) / 10 ^ 6) ((c.start : ℚ) / 10 ^ 6) ((c.stop : ℚ) / 10 ^ 6)
      (machineClock.sample collector offset c) where
  mono := by
    have hstart : c.stop - (c.stop - c.start) = c.start := Nat.sub_sub_self hle
    change min (machineClock.asMillis (c.stop - (c.stop - c.start)) +
      machineClock.asMillis c.stop) (2 ^ 64 - 1) / 2 = _
    rw [hstart, asMillis_eq (by omega), asMillis_eq (by omega), floor_millis, floor_millis,
      min_eq_left (by omega)]
  wall := by
    have hduration : (c.stop : ℚ) / 10 ^ 6 - c.start / 10 ^ 6 =
        ((c.stop - c.start : ℕ) : ℚ) / 10 ^ 6 := by
      rw [Nat.cast_sub hle, sub_div]
    have hwall : (offset : ℚ) / 10 ^ 6 + c.stop / 10 ^ 6 =
        ((offset + c.stop : ℕ) : ℚ) / 10 ^ 6 := by
      rw [Nat.cast_add, add_div]
    have hshort : c.stop - c.start < 2 ^ 50 * 10 ^ 6 := by omega
    have hshort' : ((c.stop - c.start : ℕ) : ℚ) < 2 ^ 50 * 10 ^ 6 := by exact_mod_cast hshort
    obtain ⟨hproper, hnear⟩ := collectMs_near hshort
    have hhalf := halfOf_machine hproper hnear (by positivity) (by linarith)
    rw [← hduration] at hhalf
    refine ⟨_, hhalf, ?_⟩
    rw [hwall, ← asMillis_eq hlt]
    rfl

end Clocks

/-- The stamps of a worker never step: they do not fall, and they are apart by what the wall clock
is ahead, up to three milliseconds, however long a collection takes. So it is for exact instants,
and for those of the machine while its wall clock is below `2 ^ 50` milliseconds. -/
theorem stamps_in_step :
    (∀ (P : Type) (collector : String) (offset : ℚ) (run : List (Collection ℚ P)), 0 ≤ offset →
      IsRun run → InStep offset (exactClock.worker collector offset run)) ∧
    ∀ (P : Type) (collector : String) (offset : Nat) (run : List (Collection Nat P)), IsRun run →
      (∀ c ∈ run, offset + c.stop < 2 ^ 50 * 10 ^ 6) →
      InStep ((offset : ℚ) / 10 ^ 6) (machineClock.worker collector offset run) := by
  constructor
  · intro P collector offset run hoffset hrun
    exact worker_in_step id (fun a b h => h) (fun a h => h) hoffset hrun collector
      fun c hc => exactClock_stamps collector (hrun.proper c hc).2
  · intro P collector offset run hrun hlt
    refine worker_in_step (fun nanos : Nat => (nanos : ℚ) / 10 ^ 6) (fun a b h => ?_)
      (fun a _ => ?_) (Nat.zero_le _) hrun collector
      fun c hc => machineClock_stamps collector (hrun.proper c hc).2 (hlt c hc)
    · have hcast : (a : ℚ) ≤ b := Nat.cast_le.mpr h
      gcongr
    · positivity

theorem stamps_in_step_runs :
    InStep (7 / 2) (exactClock.worker "battery" (7 / 2) [⟨0, 5 / 2, ()⟩, ⟨3, 10, ()⟩]) ∧
      InStep (((3 : ℕ) : ℚ) / 10 ^ 6)
        (machineClock.worker "battery" 3 [⟨0, 5, ()⟩, ⟨5, 10, ()⟩]) := by
  constructor
  · refine stamps_in_step.1 Unit "battery" (7 / 2) [⟨0, 5 / 2, ()⟩, ⟨3, 10, ()⟩] (by norm_num)
      ⟨?_, ?_⟩
    · simp
      norm_num
    · simp
      norm_num
  · refine stamps_in_step.2 Unit "battery" 3 [⟨0, 5, ()⟩, ⟨5, 10, ()⟩] ⟨?_, ?_⟩ ?_
    · simp
    · simp
    · simp

end PowerForensics.Sched
