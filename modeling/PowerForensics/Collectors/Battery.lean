import PowerForensics.Binary64.Finite
import PowerForensics.Core.EnvelopeDoc

/-! # Battery collector

A snapshot of the system battery and the static data of every battery interface make one
line. The lists of interfaces come back as they were, and so does what the line says about
the first of them, except for its capabilities: they are written as a hexadecimal string, and
looked for as a number.
-/

namespace PowerForensics.Collectors

open Json
open Session (ofU32)

/-! ## Snapshots -/

structure BatteryRaw where
  acConnected : Reading Bool
  chargePercent : Reading UInt8
  present : Bool
  maxCapacityMwh : Reading UInt32
  remainingCapacityMwh : Reading UInt32
  /-- Positive when charging, negative when discharging. -/
  rateMw : Reading Int32

/-- A signed integer as a number. -/
def ofI32 (n : Int32) : Binary64 := .ofInt n.toInt

/-- A power in watts that is derived from the rate, where the rate has one. -/
def derivedPower (rate : Reading Int32) (watts : Int32 → Option Binary64) (idle : String) :
    Reading Binary64 :=
  match rate with
  | .measured r | .derived r =>
      match watts r with
      | some w => .derived w
      | none => .unavailable idle
  | .estimated _ => .unavailable "rate is only estimated"
  | .unavailable reason => .unavailable reason

namespace BatteryRaw

/-- The negation of the smallest rate wraps around. -/
def dischargeW (raw : BatteryRaw) : Reading Binary64 :=
  derivedPower raw.rateMw (fun r => if r < 0 then some (ofI32 (-r) / 1000.0) else none)
    "not discharging (on AC or idle)"

def chargeW (raw : BatteryRaw) : Reading Binary64 :=
  derivedPower raw.rateMw (fun r => if 0 < r then some (ofI32 r / 1000.0) else none)
    "not charging"

end BatteryRaw

/-- What one battery interface reports about its battery. -/
structure BatteryStatic where
  designedMwh : Option UInt32
  fullMwh : Option UInt32
  cycleCount : Option UInt32
  chemistry : Option String
  technology : Option UInt8
  capabilities : Option UInt32
  temperatureRaw : Option UInt32
  deviceName : Option String
  mfgName : Option String
  uniqueId : Option String
  /-- Year, month and day. -/
  mfgDate : Option (UInt16 × UInt8 × UInt8)

def healthRatio (fullCharge design : Binary64) : Option Binary64 :=
  if design ≤ 0.0 ∨ fullCharge < 0.0 then none else some (fullCharge / design)

def healthReading (ratio : Option Binary64) : Reading Binary64 :=
  match ratio with
  | some h => .derived h
  | none => .unavailable "invalid capacity values"

/-- The health of one battery, whose capacities come from one interface. -/
def healthOf (primary : Option BatteryStatic) : Reading Binary64 :=
  match primary.bind (·.designedMwh), primary.bind (·.fullMwh) with
  | some design, some full => healthReading (healthRatio (ofU32 full) (ofU32 design))
  | _, _ => .unavailable "design capacity unknown"

/-! ## The line -/

/-- A number with zeros in front up to a width. -/
def padded (width n : Nat) : List Char :=
  let ds := Nat.toDigits 10 n
  Binary64.zeros (width - ds.length) ++ ds

def dateText (date : UInt16 × UInt8 × UInt8) : String :=
  String.ofList (padded 4 date.1.toNat ++ '-' :: padded 2 date.2.1.toNat ++
    '-' :: padded 2 date.2.2.toNat)

example : dateText (2021, 3, 7) = "2021-03-07" := by decide +kernel

def notReported : String := "not reported by battery interface"

def optU32 (v : Option UInt32) : Doc := .jsonNum (v.map ofU32) .measured .unsupported notReported

def optHex (v : Option UInt32) : Doc := .jsonStr (v.map hexText) .measured .unsupported notReported

def optStr (v : Option String) : Doc := .jsonStr v .measured .unsupported notReported

def staticDoc (entry : Nat × BatteryStatic) : Doc :=
  .obj [("index", .digits entry.1), ("designed_mwh", optU32 entry.2.designedMwh),
    ("full_mwh", optU32 entry.2.fullMwh), ("cycle_count", optU32 entry.2.cycleCount),
    ("chemistry", optStr entry.2.chemistry), ("device_name", optStr entry.2.deviceName),
    ("unique_id", optStr entry.2.uniqueId)]

/-- The number of interfaces is asked for only when none of them answered. -/
def batteryCount (statics : List (Nat × BatteryStatic)) (interfaces : Nat) : Nat :=
  if statics.isEmpty then interfaces else statics.length

def batteryMembers (raw : BatteryRaw) (statics : List (Nat × BatteryStatic)) (interfaces : Nat)
    (stamp : ClockStamp) (tStartMs tEndMs : UInt64) : List (String × Doc) :=
  let primary := statics.head?.map Prod.snd
  let count := batteryCount statics interfaces
  [("collector", .str "battery"), ("wall_ms", .digits stamp.wallMillis.toNat),
    ("mono_ms", .digits stamp.monoMillis.toNat),
    ("battery_index", optU32 (statics.head?.map fun entry => .ofNat entry.1)),
    ("battery_count", optU32 (if 0 < count then some (.ofNat count) else none)),
    ("batteries", .arr (statics.map staticDoc)),
    ("ac", .readingNum .bool raw.acConnected .transientError),
    ("charge_pct", .readingNum (.digits ·.toNat) raw.chargePercent .unsupported),
    ("present", .bool raw.present),
    -- an integer is written like the number it is, which has no fraction
    ("rate_mw", .readingNum (.shown ∘ ofI32) raw.rateMw .unsupported),
    ("remaining_mwh", .readingNum (.digits ·.toNat) raw.remainingCapacityMwh .unsupported),
    ("full_charge_mwh", .readingNum (.digits ·.toNat) raw.maxCapacityMwh .unsupported),
    ("discharge_w", .readingNum .shown raw.dischargeW .notSampled),
    ("charge_w", .readingNum .shown raw.chargeW .notSampled),
    ("design_mwh", optU32 (primary.bind (·.designedMwh))),
    ("health", .readingNum .shown (healthOf primary) .unsupported),
    ("chemistry", optStr (primary.bind (·.chemistry))),
    ("technology", optU32 (primary.bind fun s => s.technology.map UInt8.toUInt32)),
    ("capabilities", optHex (primary.bind (·.capabilities))),
    ("cycle_count", optU32 (primary.bind (·.cycleCount))),
    ("temperature_raw", optU32 (primary.bind (·.temperatureRaw))),
    ("device_name", optStr (primary.bind (·.deviceName))),
    ("mfg_name", optStr (primary.bind (·.mfgName))),
    ("unique_id", optStr (primary.bind (·.uniqueId))),
    ("mfg_date", optStr (primary.bind fun s => s.mfgDate.map dateText)),
    ("t_start_ms", .digits tStartMs.toNat), ("t_end_ms", .digits tEndMs.toNat)]

def batteryJson (raw : BatteryRaw) (statics : List (Nat × BatteryStatic)) (interfaces : Nat)
    (stamp : ClockStamp) (tStartMs tEndMs : UInt64) : Doc :=
  .obj (batteryMembers raw statics interfaces stamp tStartMs tEndMs)

/-! ## The line is read -/

theorem natAbs_toInt_lt (n : Int32) : n.toInt.natAbs < 2 ^ 53 := by
  have hlow := Int32.le_toInt n
  have hhigh := Int32.toInt_lt n
  omega

theorem isFinite_ofI32 (n : Int32) : (ofI32 n).isFinite = true :=
  Binary64.isFinite_ofInt ((natAbs_toInt_lt n).trans (by decide))

theorem toNat_lt_exact (n : UInt32) : n.toNat < 2 ^ 53 := n.toNat_lt.trans (by decide)

theorem isFinite_ofU32 (n : UInt32) : (ofU32 n).isFinite = true :=
  Binary64.isFinite_ofNat ((toNat_lt_exact n).trans (by decide))

theorem isFinite_thousandth (n : Int32) : (ofI32 n / 1000.0).isFinite = true :=
  Binary64.isFinite_ofInt_div_thousand (natAbs_toInt_lt n)

/-- What a derived power is: the power of the rate, or the reason there is none. -/
theorem derivedPower_cases (rate : Reading Int32) (watts : Int32 → Option Binary64)
    (idle : String) :
    (∃ r w, watts r = some w ∧ derivedPower rate watts idle = .derived w) ∨
      ∃ reason, derivedPower rate watts idle = .unavailable reason ∧
        (reason = idle ∨ reason = "rate is only estimated" ∨ rate = .unavailable reason) := by
  cases rate with
  | estimated r => exact Or.inr ⟨_, rfl, Or.inr (Or.inl rfl)⟩
  | unavailable reason => exact Or.inr ⟨_, rfl, Or.inr (Or.inr rfl)⟩
  | measured r =>
      cases hw : watts r with
      | none => exact Or.inr ⟨idle, by simp [derivedPower, hw], Or.inl rfl⟩
      | some w => exact Or.inl ⟨r, w, hw, by simp [derivedPower, hw]⟩
  | derived r =>
      cases hw : watts r with
      | none => exact Or.inr ⟨idle, by simp [derivedPower, hw], Or.inl rfl⟩
      | some w => exact Or.inl ⟨r, w, hw, by simp [derivedPower, hw]⟩

theorem isFinite_derivedPower {rate : Reading Int32} {watts : Int32 → Option Binary64}
    {idle : String} (hwatts : ∀ r, ∀ w ∈ watts r, w.isFinite = true) {x : Binary64}
    (hx : (derivedPower rate watts idle).value = some x) : x.isFinite = true := by
  rcases derivedPower_cases rate watts idle with ⟨r, w, hw, heq⟩ | ⟨reason, heq, -⟩
  · rw [heq] at hx
    obtain rfl := Option.some.inj hx
    exact hwatts r _ hw
  · rw [heq] at hx
    cases hx

theorem isFinite_dischargeW (raw : BatteryRaw) :
    ∀ x ∈ raw.dischargeW.value, x.isFinite = true := by
  intro x hx
  refine isFinite_derivedPower (fun r w hw => ?_) hx
  split at hw
  · obtain rfl := Option.some.inj hw
    exact isFinite_thousandth _
  · cases hw

theorem isFinite_chargeW (raw : BatteryRaw) : ∀ x ∈ raw.chargeW.value, x.isFinite = true := by
  intro x hx
  refine isFinite_derivedPower (fun r w hw => ?_) hx
  split at hw
  · obtain rfl := Option.some.inj hw
    exact isFinite_thousandth _
  · cases hw

theorem ofNat_zero_le : Binary64.ofNat 0 ≤ 0.0 := by decide +kernel

theorem ofU32_le_zero {n : UInt32} (hzero : n.toNat = 0) : ofU32 n ≤ 0.0 := by
  rw [ofU32, hzero]
  exact ofNat_zero_le

theorem isFinite_ratio (m : UInt32) {n : UInt32} (hn : n.toNat ≠ 0) :
    (ofU32 m / ofU32 n).isFinite = true := by
  rw [ofU32, ofU32]
  exact Binary64.isFinite_ofNat_div (toNat_lt_exact m) (toNat_lt_exact n) (Nat.pos_of_ne_zero hn)

theorem healthRatio_some {fullCharge design h : Binary64}
    (hratio : healthRatio fullCharge design = some h) :
    ¬ design ≤ 0.0 ∧ fullCharge / design = h := by
  unfold healthRatio at hratio
  split at hratio
  next hinvalid => cases hratio
  next hvalid => exact ⟨fun hle => hvalid (Or.inl hle), Option.some.inj hratio⟩

theorem isFinite_healthRatio {full design : UInt32} {h : Binary64}
    (hratio : healthRatio (ofU32 full) (ofU32 design) = some h) : h.isFinite = true := by
  obtain ⟨hdesign, rfl⟩ := healthRatio_some hratio
  exact isFinite_ratio full fun hzero => hdesign (ofU32_le_zero hzero)

theorem value_healthReading (ratio : Option Binary64) : (healthReading ratio).value = ratio := by
  cases ratio <;> rfl

/-- A health comes from two capacities. -/
theorem healthOf_cases (primary : Option BatteryStatic) :
    (∃ full design, healthOf primary = healthReading (healthRatio (ofU32 full) (ofU32 design))) ∨
      healthOf primary = .unavailable "design capacity unknown" := by
  unfold healthOf
  cases primary.bind (·.designedMwh) with
  | none => exact Or.inr rfl
  | some design =>
      cases primary.bind (·.fullMwh) with
      | none => exact Or.inr rfl
      | some full => exact Or.inl ⟨full, design, rfl⟩

theorem isFinite_healthOf (primary : Option BatteryStatic) :
    ∀ x ∈ (healthOf primary).value, x.isFinite = true := by
  rcases healthOf_cases primary with ⟨full, design, heq⟩ | heq
  · rw [heq, value_healthReading]
    exact fun x hx => isFinite_healthRatio hx
  · rw [heq]
    nofun

section Reads

variable {levels : Nat}

theorem reads_optU32 (v : Option UInt32) : (optU32 v).Reads (levels + 2) := by
  apply Doc.reads_jsonNum
  intro x hx
  obtain ⟨n, -, rfl⟩ := Option.mem_map.mp hx
  exact isFinite_ofU32 n

theorem reads_optStr (v : Option String) : (optStr v).Reads (levels + 2) :=
  Doc.reads_jsonStr v _ _ _

theorem reads_staticDoc (entry : Nat × BatteryStatic) : (staticDoc entry).Reads (levels + 3) := by
  apply Doc.reads_obj
  simp only [List.forall_mem_cons, List.not_mem_nil, false_imp_iff, implies_true, and_true]
  exact ⟨Nat.succ_pos _, reads_optU32 _, reads_optU32 _, reads_optU32 _, reads_optStr _,
    reads_optStr _, reads_optStr _⟩

theorem reads_batteries (statics : List (Nat × BatteryStatic)) :
    (Doc.arr (statics.map staticDoc)).Reads (levels + 4) :=
  Doc.reads_map fun entry _ => reads_staticDoc entry

end Reads

section Line

variable (raw : BatteryRaw) (statics : List (Nat × BatteryStatic)) (interfaces : Nat)
  (stamp : ClockStamp) (tStartMs tEndMs : UInt64)

theorem reads_batteryJson :
    (batteryJson raw statics interfaces stamp tStartMs tEndMs).Reads 5 := by
  have hnum : ∀ (r : Reading UInt32) (kind : UnavailKind),
      (Doc.readingNum (fun n => .digits n.toNat) r kind).Reads 4 :=
    fun r kind => Doc.reads_readingNum (fun n _ => Doc.reads_digits n.toNat) kind
  have hshown : ∀ (r : Reading Binary64) (kind : UnavailKind),
      (∀ x ∈ r.value, x.isFinite = true) → (Doc.readingNum .shown r kind).Reads 4 :=
    fun r kind hr => Doc.reads_readingNum (fun x hx => Doc.reads_shown (hr x hx)) kind
  apply Doc.reads_obj
  simp only [batteryMembers, List.forall_mem_cons, List.not_mem_nil, false_imp_iff, implies_true,
    and_true]
  exact ⟨Doc.reads_str _, Doc.reads_digits _, Doc.reads_digits _, reads_optU32 _, reads_optU32 _,
    reads_batteries statics, Doc.reads_readingNum (fun b _ => Doc.reads_bool b) _,
    Doc.reads_readingNum (fun n _ => Doc.reads_digits n.toNat) _, Doc.reads_bool _,
    Doc.reads_readingNum (fun r _ => Doc.reads_shown (isFinite_ofI32 r)) _,
    hnum _ _, hnum _ _, hshown _ _ (isFinite_dischargeW raw),
    hshown _ _ (isFinite_chargeW raw), reads_optU32 _, hshown _ _ (isFinite_healthOf _),
    reads_optStr _, reads_optU32 _, Doc.reads_jsonStr _ _ _ _, reads_optU32 _, reads_optU32 _,
    reads_optStr _, reads_optStr _, reads_optStr _, reads_optStr _, Doc.reads_digits _,
    Doc.reads_digits _⟩

end Line

end PowerForensics.Collectors
