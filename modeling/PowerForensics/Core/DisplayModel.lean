import PowerForensics.Binary64.Halves
import PowerForensics.Core.Calibration
import PowerForensics.Core.EnvelopeDoc
import PowerForensics.Core.SessionFaults

/-! # Stored display models

A calibration of the display is written as one JSON object that names the machine and the panel it
was made on. A report reads it again, whatever the file holds by then, and turns the brightness of
a session into watts: for no other machine or panel than the stored ones, and never into less for
a brighter session.
-/

namespace PowerForensics.Calibration

open Binary64 Json Session

/-! ## Model -/

/-- A line through the levels of a sweep, and whose display they were. -/
structure DisplayModel where
  machine : String
  panel : String
  minBrightness : Binary64
  slopeWPerPct : Binary64
  interceptW : Binary64
  r2 : Binary64
  createdMs : UInt64
  levels : List Point

namespace DisplayModel

def minR2 : Binary64 := 0.5

def displayWUnavailableReason (m : DisplayModel) (brightnessPct : Binary64) : Option String :=
  if m.r2 < minR2 then some "R² below trust gate"
  else if !m.slopeWPerPct.isFinite ∨ m.slopeWPerPct < 0.0 then
    some "negative slope: power would decrease with brightness"
  else
    let predicted := m.slopeWPerPct * max (brightnessPct - m.minBrightness) 0.0
    if !predicted.isFinite ∨ predicted < 0.0 then
      some "predicted display power is negative or non-finite"
    else none

def displayWAt (m : DisplayModel) (brightnessPct : Binary64) : Option Binary64 :=
  if (m.displayWUnavailableReason brightnessPct).isSome then none
  else some (m.slopeWPerPct * max (brightnessPct - m.minBrightness) 0.0)

def levelDoc (level : Point) : Doc :=
  .obj [("brightness", .shown level.1), ("median_w", .shown level.2)]

def doc (m : DisplayModel) : Doc :=
  .obj [("machine", .str m.machine), ("panel", .str m.panel),
    ("min_brightness", .shown m.minBrightness), ("slope_w_per_pct", .shown m.slopeWPerPct),
    ("intercept_w", .shown m.interceptW), ("r2", .shown m.r2),
    ("created_ms", .digits m.createdMs.toNat), ("levels", .arr (m.levels.map levelDoc))]

def toJson (m : DisplayModel) : String := m.doc.line

def levelFromJson (v : JVal) : Option Point := do
  let brightness ← v.numAt "brightness"
  let median ← v.numAt "median_w"
  some (brightness, median)

def fromJson (v : JVal) : Option DisplayModel := do
  let machine ← v.strAt "machine"
  let minBrightness ← v.numAt "min_brightness"
  let slopeWPerPct ← v.numAt "slope_w_per_pct"
  let interceptW ← v.numAt "intercept_w"
  let r2 ← v.numAt "r2"
  some
    { machine
      panel := (v.strAt "panel").getD ""
      minBrightness
      slopeWPerPct
      interceptW
      r2
      createdMs := .ofNat (((v.numAt "created_ms").getD 0.0).toUnsigned 64)
      levels := ((v.arrAt "levels").getD []).filterMap levelFromJson }

end DisplayModel

open DisplayModel

def identityMismatchReason (m : DisplayModel) (machine panel : String) : Option String :=
  if m.machine ≠ "" ∧ m.machine ≠ machine then
    some s!"machine mismatch: stored '{m.machine}' vs current '{machine}'"
  else if m.panel ≠ "" ∧ m.panel ≠ panel then
    some s!"panel mismatch: stored '{m.panel}' vs current '{panel}'"
  else none

/-- Reading the file at a path gives its text or an error. -/
def loadDisplayModelFrom (path : String) (file : Except String String) (machine panel : String) :
    Except String DisplayModel := do
  let text ← file.mapError fun e => s!"cannot read {path}: {e}"
  let v ← (Json.parse text).mapError fun e => s!"bad calibration JSON: {e}"
  let model ← (fromJson v).elim (.error "bad calibration JSON") .ok
  match identityMismatchReason model machine panel with
  | some reason => .error reason
  | none => .ok model

def loadDisplayModelFor (file : Except String String) (machine panel : String) :
    Option DisplayModel :=
  (loadDisplayModelFrom "sessions/display-calibration.json" file machine panel).toOption

/-- The known brightness of the display. -/
def brightnesses (s : SessionData) : List Binary64 := s.display.filterMap fun p => p.brightness.val

/-- The brightness and the watts that a report gives for the display. -/
def reportDisplay (file : Except String String) (machine panel : String) (s : SessionData) :
    Option (Binary64 × Binary64) := do
  let model ← loadDisplayModelFor file machine panel
  let b ← Stats.median (brightnesses s)
  let w ← model.displayWAt b
  some (b, w)

/-! ## Saving and loading -/

namespace DisplayModel

/-- The numbers of the model can be written. -/
structure Storable (m : DisplayModel) : Prop where
  minBrightness : m.minBrightness.isFinite
  slopeWPerPct : m.slopeWPerPct.isFinite
  interceptW : m.interceptW.isFinite
  r2 : m.r2.isFinite
  levels : ∀ level ∈ m.levels, level.1.isFinite ∧ level.2.isFinite

/-- A stored name that is not empty is the present one. -/
def BelongsTo (m : DisplayModel) (machine panel : String) : Prop :=
  (m.machine = "" ∨ m.machine = machine) ∧ (m.panel = "" ∨ m.panel = panel)

/-- The time of the calibration has been a number of binary64. -/
def reloaded (m : DisplayModel) : DisplayModel :=
  { m with createdMs := .ofNat ((Binary64.ofNat m.createdMs.toNat).toUnsigned 64) }

theorem belongsTo_createdMs (m : DisplayModel) (createdMs : UInt64) (machine panel : String) :
    { m with createdMs }.BelongsTo machine panel ↔ m.BelongsTo machine panel := Iff.rfl

theorem displayWAt_createdMs (m : DisplayModel) (createdMs : UInt64) (b : Binary64) :
    { m with createdMs }.displayWAt b = m.displayWAt b := rfl

theorem plainKey_of_lower {k : String} (hk : (k.toList.headD ' ').isLower = true) :
    Doc.PlainKey k := by
  unfold Doc.PlainKey
  cases hcs : k.toList with
  | nil =>
      rw [hcs] at hk
      cases hk
  | cons c cs =>
      rw [hcs] at hk
      exact ⟨c, cs, rfl, hk⟩

theorem levelDocs_keyed (levels : List Point) : Doc.ItemsKeyed (levels.map levelDoc) := by
  induction levels with
  | nil => trivial
  | cons level levels ih =>
      have hbrightness : Doc.PlainKey "brightness" := plainKey_of_lower (by decide)
      have hmedian : Doc.PlainKey "median_w" := plainKey_of_lower (by decide)
      exact ⟨hbrightness, ⟨hbrightness, trivial, hmedian, trivial, trivial⟩, ih⟩

theorem doc_keyed (m : DisplayModel) : m.doc.Keyed :=
  ⟨plainKey_of_lower (by decide), trivial, plainKey_of_lower (by decide), trivial,
    plainKey_of_lower (by decide), trivial, plainKey_of_lower (by decide), trivial,
    plainKey_of_lower (by decide), trivial, plainKey_of_lower (by decide), trivial,
    plainKey_of_lower (by decide), trivial, plainKey_of_lower (by decide),
    levelDocs_keyed m.levels, trivial⟩

theorem levelDoc_reads {levels : Nat} (level : Point) :
    (levelDoc level).Reads (levels + 2) ↔ level.1.isFinite ∧ level.2.isFinite := by
  simp [levelDoc, Doc.Reads, Doc.MembersRead]

theorem doc_reads (m : DisplayModel) {levels : Nat} : m.doc.Reads (levels + 4) ↔ Storable m := by
  have hlevels : Doc.ItemsRead (levels + 2) (m.levels.map levelDoc) ↔
      ∀ level ∈ m.levels, level.1.isFinite ∧ level.2.isFinite := by
    simp only [Doc.itemsRead_iff, List.forall_mem_map, levelDoc_reads]
  have hdepth : ∀ s : String, (JVal.str s).depth = 0 := fun _ => rfl
  simp only [doc, Doc.str, Doc.Reads, Doc.MembersRead, hdepth]
  constructor
  · rintro ⟨-, -, -, ⟨-, hmin⟩, ⟨-, hslope⟩, ⟨-, hintercept⟩, ⟨-, hr2⟩, -, ⟨-, hitems⟩, -⟩
    exact ⟨hmin, hslope, hintercept, hr2, hlevels.mp hitems⟩
  · rintro ⟨hmin, hslope, hintercept, hr2, hall⟩
    have hpos : 0 < levels + 3 := Nat.succ_pos _
    exact ⟨Nat.succ_pos _, hpos, hpos, ⟨hpos, hmin⟩, ⟨hpos, hslope⟩, ⟨hpos, hintercept⟩,
      ⟨hpos, hr2⟩, hpos, ⟨hpos, hlevels.mpr hall⟩, trivial⟩

theorem parse_saved (m : DisplayModel) (v : JVal) :
    Json.parse m.toJson = .ok v ↔ m.Storable ∧ v = m.doc.value := by
  have hlevels : Parser.depthLimit + 1 = Parser.depthLimit - 3 + 4 := rfl
  have hread := Doc.parse_text m.doc_keyed v
  rwa [hlevels, m.doc_reads] at hread

theorem value_shown (x : Binary64) : (Doc.shown x).value = .num x := rfl

theorem value_digits (n : Nat) : (Doc.digits n).value = .num (.ofNat n) := rfl

theorem levelFromJson_value (level : Point) :
    levelFromJson (levelDoc level).value = some level := by
  simp [levelFromJson, levelDoc, JVal.numAt, Doc.get_obj, value_shown, JVal.num?]

theorem fromJson_value (m : DisplayModel) : fromJson m.doc.value = some m.reloaded := by
  have hlevels : (m.levels.map fun level => (levelDoc level).value).filterMap levelFromJson =
      m.levels := by
    rw [List.filterMap_map]
    simp [levelFromJson_value]
  simp [fromJson, doc, JVal.strAt, JVal.numAt, JVal.arrAt, Doc.get_obj, Doc.value_arr,
    value_shown, value_digits, JVal.asStr, JVal.num?, JVal.arr?, reloaded, Function.comp_def,
    hlevels]

end DisplayModel

theorem identityMismatchReason_eq_none (m : DisplayModel) (machine panel : String) :
    identityMismatchReason m machine panel = none ↔ m.BelongsTo machine panel := by
  unfold identityMismatchReason BelongsTo
  split
  next hmachine => simp [hmachine.1, hmachine.2]
  next hmachine =>
    have hfits : m.machine = "" ∨ m.machine = machine := by
      rwa [not_and_or, not_not, not_not] at hmachine
    split
    next hpanel => simp [hpanel.1, hpanel.2]
    next hpanel =>
      rw [not_and_or, not_not, not_not] at hpanel
      simp [hfits, hpanel]

/-- What is loaded is read of the file and belongs to the machine and the panel. -/
theorem loadDisplayModelFrom_eq_ok {path : String} {file : Except String String}
    {machine panel : String} {m : DisplayModel} :
    loadDisplayModelFrom path file machine panel = .ok m ↔
      ∃ text v, file = .ok text ∧ Json.parse text = .ok v ∧ fromJson v = some m ∧
        m.BelongsTo machine panel := by
  simp only [loadDisplayModelFrom, bind_eq_ok, mapError_eq_ok, elim_eq_ok]
  constructor
  · rintro ⟨text, hfile, v, hparse, stored, hread, hfits⟩
    split at hfits
    next => cases hfits
    next hnone =>
      obtain rfl := Except.ok.inj hfits
      exact ⟨text, v, hfile, hparse, hread,
        (identityMismatchReason_eq_none stored machine panel).mp hnone⟩
  · rintro ⟨text, v, hfile, hparse, hread, hfits⟩
    refine ⟨text, hfile, v, hparse, m, hread, ?_⟩
    rw [(identityMismatchReason_eq_none m machine panel).mpr hfits]

/-- A model that has been saved is loaded exactly if its numbers are finite and it belongs to the
machine and the panel, and then as it was saved. -/
theorem loadDisplayModelFrom_toJson (m m' : DisplayModel) (path machine panel : String) :
    loadDisplayModelFrom path (.ok m.toJson) machine panel = .ok m' ↔
      m.Storable ∧ m.BelongsTo machine panel ∧ m' = m.reloaded := by
  have hreloaded := m.belongsTo_createdMs
    (.ofNat ((Binary64.ofNat m.createdMs.toNat).toUnsigned 64)) machine panel
  rw [loadDisplayModelFrom_eq_ok]
  constructor
  · rintro ⟨text, v, htext, hv, hread, hfits⟩
    obtain rfl := Except.ok.inj htext
    obtain ⟨hstorable, rfl⟩ := (m.parse_saved v).mp hv
    rw [m.fromJson_value, Option.some.injEq] at hread
    subst hread
    exact ⟨hstorable, hreloaded.mp hfits, rfl⟩
  · -- the time may have been rounded, and no check reads it
    rintro ⟨hstorable, hfits, rfl⟩
    exact ⟨m.toJson, m.doc.value, rfl, (m.parse_saved _).mpr ⟨hstorable, rfl⟩, m.fromJson_value,
      hreloaded.mpr hfits⟩

/-! ## Watts -/

namespace DisplayModel

/-- How far the brightness is above the level that the display is dark at. -/
def rise (m : DisplayModel) (brightnessPct : Binary64) : Binary64 :=
  max (brightnessPct - m.minBrightness) 0.0

/-- The line fits well enough and does not fall. -/
structure Trusted (m : DisplayModel) : Prop where
  r2 : ¬m.r2 < minR2
  slope : m.slopeWPerPct.isFinite = true
  rising : 0 ≤ m.slopeWPerPct.rank

theorem rise_number (m : DisplayModel) (b : Binary64) :
    (m.rise b).isNaN = false ∧ 0 ≤ (m.rise b).rank := by
  exact zero_le_iff_rank.mp (zero_le_max _)

theorem trusted_iff (m : DisplayModel) :
    m.Trusted ↔ ¬m.r2 < minR2 ∧ ¬(!m.slopeWPerPct.isFinite ∨ m.slopeWPerPct < 0.0) := by
  constructor
  · rintro ⟨hr2, hslope, hrising⟩
    refine ⟨hr2, ?_⟩
    rintro (hinf | hlt)
    · simp [hslope] at hinf
    · have hle := zero_le_iff_rank.mpr ⟨(fields_of_finite hslope).1, hrising⟩
      exact absurd hle.2.2 (not_le.mpr hlt.2.2)
  · rintro ⟨hr2, hslope⟩
    obtain ⟨hfinite, hlt⟩ := not_or.mp hslope
    have hfinite : m.slopeWPerPct.isFinite = true := by simpa using hfinite
    have hle := le_of_not_lt_number (fields_of_finite hfinite).1 literal_fields.2.1 hlt
    exact ⟨hr2, hfinite, (zero_le_iff_rank.mp hle).2⟩

/-- What a trusted model predicts is not below zero. -/
theorem Trusted.product {m : DisplayModel} (hm : m.Trusted) {b : Binary64}
    (hrise : (m.rise b).isFinite = true) : (0.0 : Binary64) ≤ m.slopeWPerPct * m.rise b := by
  obtain ⟨hnan, hrank⟩ := rank_mul_of_nonneg hm.slope hrise hm.rising (m.rise_number b).2
  refine zero_le_iff_rank.mpr ⟨hnan, ?_⟩
  rw [hrank]
  exact Int.natCast_nonneg _

theorem displayWUnavailableReason_eq_none {m : DisplayModel} {b : Binary64} :
    m.displayWUnavailableReason b = none ↔
      m.Trusted ∧ (m.slopeWPerPct * m.rise b).isFinite = true := by
  rw [trusted_iff]
  unfold displayWUnavailableReason
  split
  next hr2 => simp [hr2]
  next hr2 =>
    split
    next hslope =>
      refine ⟨fun h => ?_, fun h => absurd hslope h.1.2⟩
      cases h
    next hslope =>
      have hm := m.trusted_iff.mpr ⟨hr2, hslope⟩
      change (if !(m.slopeWPerPct * m.rise b).isFinite ∨ m.slopeWPerPct * m.rise b < 0.0 then
        some "predicted display power is negative or non-finite" else none) = none ↔ _
      rw [ite_eq_right_iff]
      constructor
      · intro h
        refine ⟨⟨hr2, hslope⟩, ?_⟩
        by_contra hinf
        cases h (Or.inl (by simpa using hinf))
      · rintro ⟨-, hfinite⟩ (hinf | hlt)
        · rw [hfinite] at hinf
          cases hinf
        · -- the source's last test only ever finds a product that is not finite
          have hpos := (hm.product (finite_of_mul hfinite).2).2.2
          exact absurd hpos (not_le.mpr hlt.2.2)

/-- The model has a value where it is trusted and the value is finite. -/
theorem displayWAt_eq_some {m : DisplayModel} {b w : Binary64} :
    m.displayWAt b = some w ↔
      m.Trusted ∧ w = m.slopeWPerPct * m.rise b ∧ w.isFinite = true := by
  unfold displayWAt
  cases hreason : m.displayWUnavailableReason b with
  | some reason =>
      rw [Option.isSome_some, if_pos rfl]
      constructor
      · intro h
        cases h
      · rintro ⟨hm, rfl, hfinite⟩
        rw [displayWUnavailableReason_eq_none.mpr ⟨hm, hfinite⟩] at hreason
        cases hreason
  | none =>
      obtain ⟨hm, hfinite⟩ := displayWUnavailableReason_eq_none.mp hreason
      rw [Option.isSome_none, if_neg Bool.false_ne_true, Option.some.injEq]
      constructor
      · rintro rfl
        exact ⟨hm, rfl, hfinite⟩
      · rintro ⟨-, rfl, -⟩
        rfl

/-- The watts are finite and not below zero, and none at the dark level or below. -/
theorem displayWAt_bounds {m : DisplayModel} {b w : Binary64} (hw : m.displayWAt b = some w) :
    w.isFinite = true ∧ 0.0 ≤ w ∧ (b ≤ m.minBrightness → w ≤ 0.0) := by
  obtain ⟨hm, rfl, hfinite⟩ := displayWAt_eq_some.mp hw
  refine ⟨hfinite, hm.product (finite_of_mul hfinite).2, fun hle => ?_⟩
  have hdark : m.slopeWPerPct * m.rise b ≤ m.slopeWPerPct * 0.0 :=
    mul_le_mul_left_nonneg hm.slope hm.rising (m.rise_number b).2 (max_sub_of_le hle)
      zero_finite.1
  refine le_zero_iff_rank.mpr ⟨hdark.1, ?_⟩
  rw [← rank_mul_zero hm.slope hm.rising]
  exact hdark.2.2

/-- A darker display takes no more, and its watts are known if those of a brighter one are. -/
theorem displayWAt_mono {m : DisplayModel} {b b' w' : Binary64} (hle : b ≤ b')
    (hw' : m.displayWAt b' = some w') : ∃ w, m.displayWAt b = some w ∧ w ≤ w' := by
  obtain ⟨hm, rfl, hfinite'⟩ := displayWAt_eq_some.mp hw'
  have hmono : m.slopeWPerPct * m.rise b ≤ m.slopeWPerPct * m.rise b' :=
    mul_le_mul_left_nonneg hm.slope hm.rising (m.rise_number b).2
      (max_sub_mono hle m.minBrightness) (finite_of_mul hfinite').2
  have hrise := finite_between (zero_le_max _) (max_sub_mono hle m.minBrightness) zero_finite.1
    (finite_of_mul hfinite').2
  -- the smaller product lies between zero and one that is finite
  have hpositive : (0.0 : Binary64) ≤ m.slopeWPerPct * m.rise b := hm.product hrise
  have hfinite := finite_between hpositive hmono zero_finite.1 hfinite'
  exact ⟨_, displayWAt_eq_some.mpr ⟨hm, rfl, hfinite⟩, hmono⟩

end DisplayModel

/-! ## Reports -/

theorem reportDisplay_eq_some {file : Except String String} {machine panel : String}
    {s : SessionData} {b w : Binary64} :
    reportDisplay file machine panel s = some (b, w) ↔
      ∃ m, loadDisplayModelFrom "sessions/display-calibration.json" file machine panel = .ok m ∧
        Stats.median (brightnesses s) = some b ∧ m.displayWAt b = some w := by
  unfold reportDisplay loadDisplayModelFor
  cases loadDisplayModelFrom "sessions/display-calibration.json" file machine panel with
  | error e => simp [Except.toOption]
  | ok m =>
      cases Stats.median (brightnesses s) with
      | none => simp [Except.toOption]
      | some brightness =>
          simp only [Except.toOption, Option.bind_eq_bind, Option.bind_some, Except.ok.injEq,
            Option.bind_eq_some_iff, Option.some.injEq, Prod.mk.injEq, exists_eq_left']
          constructor
          · rintro ⟨watts, hw, rfl, rfl⟩
            exact ⟨rfl, hw⟩
          · rintro ⟨rfl, hw⟩
            exact ⟨w, hw, rfl, rfl⟩

/-- A model that has been saved is loaded, and a report gives its watts, exactly on the machine and
the panel it belongs to and if its numbers are finite. -/
theorem saved_then_reported (m : DisplayModel) (machine panel : String) :
    (∀ path m', loadDisplayModelFrom path (.ok m.toJson) machine panel = .ok m' ↔
      m.Storable ∧ m.BelongsTo machine panel ∧ m' = m.reloaded) ∧
    ∀ s b w, reportDisplay (.ok m.toJson) machine panel s = some (b, w) ↔
      m.Storable ∧ m.BelongsTo machine panel ∧
        Stats.median (brightnesses s) = some b ∧ m.displayWAt b = some w := by
  refine ⟨fun path m' => loadDisplayModelFrom_toJson m m' path machine panel, fun s b w => ?_⟩
  have hwatts := m.displayWAt_createdMs
    (.ofNat ((Binary64.ofNat m.createdMs.toNat).toUnsigned 64)) b
  rw [reportDisplay_eq_some]
  simp only [loadDisplayModelFrom_toJson]
  constructor
  · rintro ⟨m', ⟨hstorable, hfits, rfl⟩, hb, hw⟩
    exact ⟨hstorable, hfits, hb, hwatts.symm.trans hw⟩
  · rintro ⟨hstorable, hfits, hb, hw⟩
    exact ⟨_, ⟨hstorable, hfits, rfl⟩, hb, hwatts.trans hw⟩

/-- Whatever the file holds: watts are only given by a trusted model that belongs to the machine
and the panel, they are finite and not below zero, and a darker session is given no more than a
brighter one. -/
theorem reportDisplay_spec (file : Except String String) (machine panel : String) :
    (∀ s b w, reportDisplay file machine panel s = some (b, w) →
      Stats.median (brightnesses s) = some b ∧ w.isFinite = true ∧ 0.0 ≤ w ∧
        ∃ text v m, file = .ok text ∧ Json.parse text = .ok v ∧ fromJson v = some m ∧
          m.BelongsTo machine panel ∧ m.Trusted ∧ (b ≤ m.minBrightness → w ≤ 0.0)) ∧
    ∀ s s' b b' w', Stats.median (brightnesses s) = some b → b ≤ b' →
      reportDisplay file machine panel s' = some (b', w') →
        ∃ w, reportDisplay file machine panel s = some (b, w) ∧ w ≤ w' := by
  constructor
  · intro s b w h
    obtain ⟨m, hm, hb, hw⟩ := reportDisplay_eq_some.mp h
    obtain ⟨text, v, hfile, hparse, hread, hfits⟩ := loadDisplayModelFrom_eq_ok.mp hm
    obtain ⟨hfinite, hpos, hdark⟩ := displayWAt_bounds hw
    exact ⟨hb, hfinite, hpos, text, v, m, hfile, hparse, hread, hfits,
      (displayWAt_eq_some.mp hw).1, hdark⟩
  · intro s s' b b' w' hb hle h
    obtain ⟨m, hm, -, hw'⟩ := reportDisplay_eq_some.mp h
    obtain ⟨w, hw, hwle⟩ := displayWAt_mono hle hw'
    exact ⟨w, reportDisplay_eq_some.mpr ⟨m, hm, hb, hw⟩, hwle⟩

end PowerForensics.Calibration
