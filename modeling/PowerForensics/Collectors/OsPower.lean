import PowerForensics.Collectors.Graphics
import PowerForensics.Core.Telemetry
import PowerForensics.System.Lookup
import PowerForensics.System.Runs

/-! # Power policy collector

A read reports the active power scheme and the policy settings of a snapshot of `powercfg`. The
snapshot is kept between reads and is taken anew when the active scheme is not the remembered one.
Where the new snapshot cannot be had, the old one stays in use. The model is of the Windows build.
-/

namespace PowerForensics.Collectors

/-! ## Identifiers -/

structure PowerGuid where
  d1 : UInt32
  d2 : UInt16
  d3 : UInt16
  d4 : Vector UInt8 8
  deriving DecidableEq

def subProcessor : PowerGuid :=
  ⟨0x54533251, 0x82be, 0x4824, #v[0x96, 0xc1, 0x47, 0xb6, 0x0b, 0x74, 0x0d, 0x00]⟩
def procThrottleMin : PowerGuid :=
  ⟨0x893dee8e, 0x2bef, 0x41e0, #v[0x89, 0xc6, 0xb5, 0x5d, 0x09, 0x29, 0x96, 0x4c]⟩
def procThrottleMax : PowerGuid :=
  ⟨0xbc5038f7, 0x23e0, 0x4960, #v[0x96, 0xda, 0x33, 0xab, 0xaf, 0x59, 0x35, 0xec]⟩
def perfEpp : PowerGuid :=
  ⟨0x36687f9e, 0xe3a5, 0x4dbf, #v[0xb1, 0xdc, 0x75, 0x34, 0xe3, 0xab, 0x68, 0xc8]⟩
def subVideo : PowerGuid :=
  ⟨0x7516b95f, 0xf776, 0x4464, #v[0x8c, 0x53, 0x06, 0x16, 0x7f, 0x40, 0xcc, 0x99]⟩
def videoIdle : PowerGuid :=
  ⟨0x3c0bc021, 0xc8a8, 0x4e07, #v[0xa9, 0x73, 0x6b, 0x14, 0xcb, 0xcb, 0x2b, 0x7e]⟩
def videoNormalLevel : PowerGuid :=
  ⟨0xaded5e82, 0xb909, 0x4619, #v[0x99, 0x49, 0xf5, 0xd7, 0x1d, 0xac, 0x0b, 0xcb]⟩
def subSleep : PowerGuid :=
  ⟨0x238c9fa8, 0x0aad, 0x41ed, #v[0x83, 0xf4, 0x97, 0xbe, 0x24, 0x2c, 0x8f, 0x20]⟩
def standbyIdle : PowerGuid :=
  ⟨0x29f6c1db, 0x86da, 0x48c5, #v[0x9f, 0xdb, 0xf2, 0xb6, 0x7b, 0x1f, 0x44, 0xda]⟩
def hibernateIdle : PowerGuid :=
  ⟨0x9d7815a6, 0x7ee4, 0x497e, #v[0x88, 0x88, 0x51, 0x5a, 0x05, 0xf0, 0x23, 0x64]⟩
def subBattery : PowerGuid :=
  ⟨0xe73a048d, 0xbf27, 0x4f12, #v[0x97, 0x31, 0x8b, 0x20, 0x76, 0xe8, 0x89, 0x1f]⟩
def batteryLow : PowerGuid :=
  ⟨0x8183ba9a, 0xe910, 0x48da, #v[0x87, 0x69, 0x14, 0xae, 0x6d, 0xc1, 0x17, 0x0a]⟩
def batteryCrit : PowerGuid :=
  ⟨0x9a66d8d7, 0x4ff7, 0x4ef9, #v[0xb5, 0xa2, 0x5a, 0x32, 0x6c, 0xa2, 0xa4, 0x69]⟩

/-- The names of the identifiers and their texts. -/
def guids : List (String × String) :=
  [("SUB_PROCESSOR", "54533251-82be-4824-96c1-47b60b740d00"),
    ("PROCTHROTTLEMIN", "893dee8e-2bef-41e0-89c6-b55d0929964c"),
    ("PROCTHROTTLEMAX", "bc5038f7-23e0-4960-96da-33abaf5935ec"),
    ("PERFEPP", "36687f9e-e3a5-4dbf-b1dc-7534e3ab68c8"),
    ("SUB_VIDEO", "7516b95f-f776-4464-8c53-06167f40cc99"),
    ("VIDEOIDLE", "3c0bc021-c8a8-4e07-a973-6b14cbcb2b7e"),
    ("VIDEONORMALLEVEL", "aded5e82-b909-4619-9949-f5d71dac0bcb"),
    ("SUB_SLEEP", "238c9fa8-0aad-41ed-83f4-97be242c8f20"),
    ("STANDBYIDLE", "29f6c1db-86da-48c5-9fdb-f2b67b1f44da"),
    ("HIBERNATEIDLE", "9d7815a6-7ee4-497e-8888-515a05f02364"),
    ("SUB_BATTERY", "e73a048d-bf27-4f12-9731-8b2076e8891f"),
    ("BATTERY_LOW", "8183ba9a-e910-48da-8769-14ae6dc1170a"),
    ("BATTERY_CRIT", "9a66d8d7-4ff7-4ef9-b5a2-5a326ca2a469")]

def guidFor (name : String) : String := (guids.lookup name).getD ""

def hexPadded (width n : Nat) : String := .ofList ((Nat.toDigits 16 n).leftpad width '0')

def formatGuid (g : PowerGuid) : String :=
  let d4 := g.d4.toList.map fun b => hexPadded 2 b.toNat
  "-".intercalate [hexPadded 8 g.d1.toNat, hexPadded 4 g.d2.toNat, hexPadded 4 g.d3.toNat,
    String.join (d4.take 2), String.join (d4.drop 2)]

/-- The three schemes that come with the system have names. -/
def schemeName (guid : String) : String :=
  let lower := guid.toList.map Char.toLower
  if lower = "381b4222-f694-41f0-9685-ff5bb260df2e".toList then "Balanced"
  else if lower = "8c5e7fda-e8bf-4a96-9a85-a6e23a8c635c".toList then "High performance"
  else if lower = "a1841308-3541-4fab-bc81-70f8c81f536".toList then "Power saver"
  else s!"custom ({guid})"

/-! ## Snapshots of `powercfg` -/

/-- The values of settings, with their subgroups, on mains and on battery. -/
abbrev EffectiveMap := List ((String × String) × (UInt32 × UInt32))

structure PowercfgParse where
  map : EffectiveMap
  sub : String
  set : String
  ac : Option UInt32

def PowercfgParse.start : PowercfgParse := ⟨[], "", "", none⟩

def stripPrefix (key : String) (cs : List Char) : Option (List Char) :=
  if key.toList <+: cs then some (cs.drop key.toList.length) else none

variable (toLowercase : String → String)

/-- The first word, in lower case. -/
def guidOf (line : List Char) : String :=
  toLowercase (.ofList ((Search.trimStart line).takeWhile fun c => !Lines.isWhitespace c))

def hexOf (line : List Char) : Option UInt32 :=
  parseU32 16 (Lines.trim (trimHex (Lines.trim line)))

/-- A setting is entered with its battery value, where both values and both names are known. -/
def PowercfgParse.enter (p : PowercfgParse) (dc : Option UInt32) : PowercfgParse :=
  match p.ac, dc with
  | some a, some d =>
      if p.sub ≠ "" ∧ p.set ≠ "" then
        { p with map := p.map ++ [((p.sub, p.set), (a, d))], ac := none }
      else { p with ac := none }
  | _, _ => { p with ac := none }

def PowercfgParse.line (p : PowercfgParse) (raw : List Char) : PowercfgParse :=
  let t := Lines.trim raw
  match stripPrefix "Subgroup GUID:" t, stripPrefix "Power Setting GUID:" t,
      stripPrefix "Current AC Power Setting Index:" t,
      stripPrefix "Current DC Power Setting Index:" t with
  | some rest, _, _, _ => { p with sub := guidOf toLowercase rest }
  | none, some rest, _, _ => { p with set := guidOf toLowercase rest, ac := none }
  | none, none, some rest, _ => { p with ac := hexOf rest }
  | none, none, none, some rest => p.enter (hexOf rest)
  | none, none, none, none => p

/-- The line that names the scheme is not looked at. -/
def parsePowercfgQuery (text : List Char) : EffectiveMap :=
  ((Lines.lines text).foldl (PowercfgParse.line toLowercase) .start).map

/-- What a program that was run has left. -/
structure CommandOutput where
  success : Bool
  stdout : List UInt8

def queryEffective (output : Except String CommandOutput) : Except String EffectiveMap :=
  match output with
  | .error e => .error s!"powercfg spawn failed: {e}"
  | .ok out =>
      if out.success then .ok (parsePowercfgQuery toLowercase (Utf8.decodeLossy out.stdout))
      else .error "powercfg /query failed"

/-! ## Reads -/

/-- A value on mains and on battery. -/
structure AcDc (α : Type) where
  ac : α
  dc : α
  deriving DecidableEq

structure OsPowerRaw where
  schemeGuid : Reading String
  schemeName : String
  timerResolutionMs : Reading Binary64
  /-- When the snapshot was taken; 0 for none. -/
  policySnapshotWallMs : UInt64
  cpuMin : AcDc (Reading UInt32)
  cpuMax : AcDc (Reading UInt32)
  epp : AcDc (Reading UInt32)
  displayTimeoutS : AcDc (Reading UInt32)
  brightnessPct : AcDc (Reading UInt32)
  sleepTimeoutS : AcDc (Reading UInt32)
  hibernateTimeoutS : AcDc (Reading UInt32)
  lowBattPct : AcDc (Reading UInt32)
  critBattPct : AcDc (Reading UInt32)

/-- What the system answers during a read. -/
structure PowerCalls where
  /-- The status and the current resolution. -/
  timer : Int32 × UInt32
  /-- The return code and what the pointer to the active scheme shows. -/
  active : UInt32 × Option PowerGuid
  /-- The return code and the buffer of a stored index of a setting of a subgroup of a scheme. -/
  stored : Bool → PowerGuid → PowerGuid → PowerGuid → UInt32 × UInt32
  powercfg : Except String CommandOutput
  /-- The scheme that is active while `powercfg` runs. -/
  queried : PowerGuid

structure PowerRead where
  stamp : ClockStamp
  calls : PowerCalls

def readTimerResolution (timer : Int32 × UInt32) : Reading Binary64 :=
  if timer.1 ≠ 0 then .unavailable "NtQueryTimerResolution failed"
  else .measured (.ofNat timer.2.toNat / 10000.0)

def activeScheme (active : UInt32 × Option PowerGuid) : Except String (PowerGuid × String) :=
  match active with
  | (0, some guid) => .ok (guid, formatGuid guid)
  | _ => .error "PowerGetActiveScheme failed"

/-- The buffer holds this value before the call. -/
def sentinel : UInt32 := 0xDEADBEEF

def readIndex (result : UInt32 × UInt32) : Reading UInt32 :=
  if result.1 ≠ 0 then .unavailable "no stored override for this setting"
  else if result.2 = sentinel then .unavailable "API returned success without data"
  else .measured result.2

structure OsPowerCollector where
  effective : EffectiveMap
  effScheme : String
  effSnapshotMs : UInt64

namespace OsPowerCollector

def new : OsPowerCollector := ⟨[], "", 0⟩

def guidReading (active : UInt32 × Option PowerGuid) : Reading String :=
  match activeScheme active with
  | .ok (_, s) => .measured s
  | .error _ => .unavailable "PowerGetActiveScheme failed"

/-- The stored values of a setting, which the system knows by scheme. -/
def pair (calls : PowerCalls) (sub set : PowerGuid) : AcDc (Reading UInt32) :=
  match activeScheme calls.active with
  | .ok (s, _) =>
      ⟨readIndex (calls.stored true s sub set), readIndex (calls.stored false s sub set)⟩
  | .error _ => ⟨.unavailable "active scheme unknown", .unavailable "active scheme unknown"⟩

def guidNow (r : PowerRead) : String := (guidReading r.calls.active).value.getD ""

/-- A snapshot is wanted where there is none and where the scheme is another one. -/
def Wants (s : OsPowerCollector) (r : PowerRead) : Prop :=
  s.effective = [] ∨ s.effScheme ≠ guidNow r

instance (s : OsPowerCollector) (r : PowerRead) : Decidable (s.Wants r) :=
  inferInstanceAs (Decidable (_ ∨ _))

def refresh (s : OsPowerCollector) (r : PowerRead) : OsPowerCollector :=
  if s.Wants r then
    match queryEffective toLowercase r.calls.powercfg with
    | .ok map => ⟨map, guidNow r, r.stamp.wallMillis⟩
    | .error _ => s
  else s

def key (subName setName : String) : String × String := (guidFor subName, guidFor setName)

/-- The snapshot wins; the stored value is the fallback. -/
def pick (s : OsPowerCollector) (subName setName : String) (api : AcDc (Reading UInt32)) :
    AcDc (Reading UInt32) :=
  match Lookup.latest s.effective (key subName setName) with
  | some (a, d) => ⟨.measured a, .measured d⟩
  | none => api

def read (before : OsPowerCollector) (r : PowerRead) : OsPowerRaw × OsPowerCollector :=
  let s := before.refresh toLowercase r
  let guid := guidReading r.calls.active
  let raw : OsPowerRaw :=
    { schemeGuid := guid
      schemeName := match guid with
        | .measured g => schemeName g
        | _ => "unknown"
      timerResolutionMs := readTimerResolution r.calls.timer
      policySnapshotWallMs := s.effSnapshotMs
      cpuMin := s.pick "SUB_PROCESSOR" "PROCTHROTTLEMIN"
        (pair r.calls subProcessor procThrottleMin)
      cpuMax := s.pick "SUB_PROCESSOR" "PROCTHROTTLEMAX"
        (pair r.calls subProcessor procThrottleMax)
      epp := s.pick "SUB_PROCESSOR" "PERFEPP" (pair r.calls subProcessor perfEpp)
      displayTimeoutS := s.pick "SUB_VIDEO" "VIDEOIDLE" (pair r.calls subVideo videoIdle)
      brightnessPct := s.pick "SUB_VIDEO" "VIDEONORMALLEVEL"
        (pair r.calls subVideo videoNormalLevel)
      sleepTimeoutS := s.pick "SUB_SLEEP" "STANDBYIDLE" (pair r.calls subSleep standbyIdle)
      hibernateTimeoutS := s.pick "SUB_SLEEP" "HIBERNATEIDLE"
        (pair r.calls subSleep hibernateIdle)
      lowBattPct := s.pick "SUB_BATTERY" "BATTERY_LOW" (pair r.calls subBattery batteryLow)
      critBattPct := s.pick "SUB_BATTERY" "BATTERY_CRIT" (pair r.calls subBattery batteryCrit) }
  (raw, s)

end OsPowerCollector

/-! ## Settings -/

/-- A reported setting, the names it is looked up under and the identifiers it is stored under. -/
structure Setting where
  sub : String
  set : String
  subGuid : PowerGuid
  setGuid : PowerGuid
  reported : OsPowerRaw → AcDc (Reading UInt32)

def Setting.key (q : Setting) : String × String := OsPowerCollector.key q.sub q.set

def settings : List Setting :=
  [⟨"SUB_PROCESSOR", "PROCTHROTTLEMIN", subProcessor, procThrottleMin, OsPowerRaw.cpuMin⟩,
    ⟨"SUB_PROCESSOR", "PROCTHROTTLEMAX", subProcessor, procThrottleMax, OsPowerRaw.cpuMax⟩,
    ⟨"SUB_PROCESSOR", "PERFEPP", subProcessor, perfEpp, OsPowerRaw.epp⟩,
    ⟨"SUB_VIDEO", "VIDEOIDLE", subVideo, videoIdle, OsPowerRaw.displayTimeoutS⟩,
    ⟨"SUB_VIDEO", "VIDEONORMALLEVEL", subVideo, videoNormalLevel, OsPowerRaw.brightnessPct⟩,
    ⟨"SUB_SLEEP", "STANDBYIDLE", subSleep, standbyIdle, OsPowerRaw.sleepTimeoutS⟩,
    ⟨"SUB_SLEEP", "HIBERNATEIDLE", subSleep, hibernateIdle, OsPowerRaw.hibernateTimeoutS⟩,
    ⟨"SUB_BATTERY", "BATTERY_LOW", subBattery, batteryLow, OsPowerRaw.lowBattPct⟩,
    ⟨"SUB_BATTERY", "BATTERY_CRIT", subBattery, batteryCrit, OsPowerRaw.critBattPct⟩]

/-- The name under which a setting is looked up is the text of the identifier that it is stored
under. -/
theorem settings_named : ∀ q ∈ settings,
    q.key = (formatGuid q.subGuid, formatGuid q.setGuid) := by
  decide +kernel

/-- Every setting is reported from the snapshot, or else as it is stored. -/
theorem reported_eq (s : OsPowerCollector) (r : PowerRead) : ∀ q ∈ settings,
    q.reported (s.read toLowercase r).1 =
      (s.refresh toLowercase r).pick q.sub q.set
        (OsPowerCollector.pair r.calls q.subGuid q.setGuid) := by
  simp [settings, OsPowerCollector.read]

/-! ## Where policies come from -/

/-- A snapshot as it was taken: what it says, of which scheme it is, and when it was taken. -/
structure PolicySnapshot where
  map : EffectiveMap
  scheme : PowerGuid
  wallMillis : UInt64

/-- The snapshot that a read takes. -/
def OsPowerCollector.takes (s : OsPowerCollector) (r : PowerRead) : Option PolicySnapshot :=
  if s.Wants r then
    match queryEffective toLowercase r.calls.powercfg with
    | .ok map => some ⟨map, r.calls.queried, r.stamp.wallMillis⟩
    | .error _ => none
  else none

/-- A collector and the snapshot it took last. -/
structure TracedPower where
  collector : OsPowerCollector
  taken : Option PolicySnapshot

namespace TracedPower

def start : TracedPower := ⟨.new, none⟩

def read (t : TracedPower) (r : PowerRead) : TracedPower :=
  ⟨(t.collector.read toLowercase r).2, (t.collector.takes toLowercase r).or t.taken⟩

def step (t : TracedPower) (r : PowerRead) : Option TracedPower := some (t.read toLowercase r)

end TracedPower

/-- The policies of a sample that come from the snapshot are of the scheme that the sample
reports, and of the time that it reports. -/
def PoliciesBelong (t : TracedPower) (r : PowerRead) : Prop :=
  ∀ q ∈ settings, ∀ ac dc : UInt32,
    Lookup.latest (t.read toLowercase r).collector.effective q.key = some (ac, dc) →
    q.reported (t.collector.read toLowercase r).1 = ⟨.measured ac, .measured dc⟩ ∧
    ∃ snapshot ∈ (t.read toLowercase r).taken,
      Lookup.latest snapshot.map q.key = some (ac, dc) ∧
      (t.collector.read toLowercase r).1.schemeGuid = .measured (formatGuid snapshot.scheme) ∧
      (t.collector.read toLowercase r).1.policySnapshotWallMs = snapshot.wallMillis

/-- There is a value for a setting that is reported. -/
def HasPolicy (map : EffectiveMap) : Prop := ∃ q ∈ settings, (Lookup.latest map q.key).isSome

/-- The call for the active scheme succeeds with a scheme of this text. -/
def Reports (r : PowerRead) (scheme : String) : Prop :=
  ∃ guid : PowerGuid, activeScheme r.calls.active = .ok (guid, scheme)

/-- The snapshot that a read uses is of the scheme that it reports, if it says anything: one
taken now was queried under this scheme, and one kept is remembered under it. -/
def Steady (s : OsPowerCollector) (r : PowerRead) : Prop :=
  match s.takes toLowercase r with
  | some snapshot => HasPolicy snapshot.map → Reports r (formatGuid snapshot.scheme)
  | none => HasPolicy s.effective → Reports r s.effScheme

/-- The collector holds the snapshot it took last, under the text of the scheme it is of. -/
structure TracedPower.Inv (t : TracedPower) : Prop where
  source : t.collector.effective = (t.taken.map PolicySnapshot.map).getD []
  time : ∀ snapshot ∈ t.taken, t.collector.effSnapshotMs = snapshot.wallMillis
  scheme : ∀ snapshot ∈ t.taken, HasPolicy snapshot.map →
    t.collector.effScheme = formatGuid snapshot.scheme

section Policies

variable {toLowercase} {t : TracedPower} {r : PowerRead}

theorem reports_iff {scheme : String} :
    Reports r scheme ↔ OsPowerCollector.guidReading r.calls.active = .measured scheme := by
  unfold Reports OsPowerCollector.guidReading
  cases activeScheme r.calls.active with
  | error e => simp
  | ok found => simp [Prod.ext_iff]

theorem guidNow_of_reports {scheme : String} (h : Reports r scheme) :
    OsPowerCollector.guidNow r = scheme := by
  rw [OsPowerCollector.guidNow, reports_iff.mp h]
  rfl

/-- A read that takes a snapshot holds it. -/
theorem read_taken {snapshot : PolicySnapshot}
    (h : t.collector.takes toLowercase r = some snapshot) :
    t.read toLowercase r = ⟨⟨snapshot.map, OsPowerCollector.guidNow r, snapshot.wallMillis⟩,
      some snapshot⟩ := by
  have hcollector : t.collector.refresh toLowercase r =
      ⟨snapshot.map, OsPowerCollector.guidNow r, snapshot.wallMillis⟩ := by
    unfold OsPowerCollector.takes at h
    unfold OsPowerCollector.refresh
    split at h
    next hwants =>
      rw [if_pos hwants]
      split at h
      next map _ =>
        obtain rfl := Option.some.inj h
        rfl
      next => cases h
    next => cases h
  rw [TracedPower.read, h, OsPowerCollector.read, hcollector]
  rfl

/-- A read that takes none keeps what there was. -/
theorem read_kept (h : t.collector.takes toLowercase r = none) : t.read toLowercase r = t := by
  have hcollector : t.collector.refresh toLowercase r = t.collector := by
    unfold OsPowerCollector.takes at h
    unfold OsPowerCollector.refresh
    split at h
    next hwants =>
      rw [if_pos hwants]
      split at h
      next => cases h
      next => rfl
    next hwants => rw [if_neg hwants]
  rw [TracedPower.read, h, OsPowerCollector.read, hcollector]
  rfl

theorem start_inv : TracedPower.start.Inv :=
  ⟨rfl, by simp [TracedPower.start], by simp [TracedPower.start]⟩

theorem read_inv (hinv : t.Inv) (hsteady : Steady toLowercase t.collector r) :
    (t.read toLowercase r).Inv := by
  unfold Steady at hsteady
  cases htakes : t.collector.takes toLowercase r with
  | none =>
      rw [read_kept htakes]
      exact hinv
  | some snapshot =>
      simp only [htakes] at hsteady
      rw [read_taken htakes]
      refine ⟨rfl, ?_, ?_⟩
      · rintro _ ⟨⟩
        rfl
      · rintro _ ⟨⟩ hpolicy
        exact guidNow_of_reports (hsteady hpolicy)

/-- The values and the time are those of the snapshot that was taken last. What is left is the
scheme. -/
theorem belong_iff {snapshot : PolicySnapshot}
    (htaken : (t.read toLowercase r).taken = some snapshot)
    (hsource : (t.read toLowercase r).collector.effective = snapshot.map)
    (htime : (t.read toLowercase r).collector.effSnapshotMs = snapshot.wallMillis) :
    PoliciesBelong toLowercase t r ↔
      (HasPolicy snapshot.map → Reports r (formatGuid snapshot.scheme)) := by
  unfold PoliciesBelong
  rw [hsource]
  constructor
  · rintro h ⟨q, hq, hvalue⟩
    obtain ⟨⟨ac, dc⟩, hvalue⟩ := Option.isSome_iff_exists.mp hvalue
    obtain ⟨_, found, hfound, _, hscheme, _⟩ := h q hq ac dc hvalue
    rw [htaken] at hfound
    obtain rfl := Option.some.inj hfound
    exact reports_iff.mpr hscheme
  · intro h q hq ac dc hvalue
    have hscheme := reports_iff.mp (h ⟨q, hq, by rw [hvalue]; rfl⟩)
    have hpick : Lookup.latest (t.collector.refresh toLowercase r).effective
        (OsPowerCollector.key q.sub q.set) = some (ac, dc) := by
      have heffective : (t.collector.refresh toLowercase r).effective = snapshot.map := hsource
      rw [heffective]
      exact hvalue
    refine ⟨?_, snapshot, htaken, hvalue, hscheme, htime⟩
    rw [reported_eq toLowercase t.collector r q hq, OsPowerCollector.pick, hpick]

/-- Where the collector is in order, the policies of the next sample belong to it exactly if the
read is steady. -/
theorem belong_iff_steady (hinv : t.Inv) :
    PoliciesBelong toLowercase t r ↔ Steady toLowercase t.collector r := by
  unfold Steady
  cases htakes : t.collector.takes toLowercase r with
  | some snapshot =>
      have hread := read_taken htakes
      exact belong_iff (by rw [hread]) (by rw [hread]) (by rw [hread])
  | none =>
      have hread := read_kept htakes
      cases htaken : t.taken with
      | some snapshot =>
          have hsource : t.collector.effective = snapshot.map := by
            rw [hinv.source, htaken]
            rfl
          rw [belong_iff (by rw [hread, htaken]) (by rw [hread, hsource])
            (by rw [hread, hinv.time snapshot htaken]), hsource]
          refine forall_congr' fun hpolicy => ?_
          rw [hinv.scheme snapshot htaken hpolicy]
      | none =>
          have hempty : t.collector.effective = [] := by
            rw [hinv.source, htaken]
            rfl
          unfold PoliciesBelong HasPolicy
          rw [hread, hempty]
          simp [Lookup.latest_nil]

variable (toLowercase) in
/-- In every run, the policies of all samples belong to them exactly if all reads are steady. -/
theorem policies_belong_iff (reads : List PowerRead) :
    Runs.Meets (TracedPower.step toLowercase) (PoliciesBelong toLowercase) .start reads ↔
      Runs.Meets (TracedPower.step toLowercase) (fun t r => Steady toLowercase t.collector r)
        .start reads := by
  have hagree : ∀ (t : TracedPower) (r : PowerRead), t.Inv →
      (PoliciesBelong toLowercase t r ↔ Steady toLowercase t.collector r) :=
    fun _ _ hinv => belong_iff_steady hinv
  have hkept : ∀ (t : TracedPower) (r : PowerRead) (next : TracedPower), t.Inv →
      Steady toLowercase t.collector r → t.step toLowercase r = some next → next.Inv := by
    intro t r next hinv hsteady hnext
    obtain rfl := Option.some.inj hnext
    exact read_inv hinv hsteady
  exact Runs.meets_congr hagree hkept start_inv

end Policies

def balanced : PowerGuid :=
  ⟨0x381b4222, 0xf694, 0x41f0, #v[0x96, 0x85, 0xff, 0x5b, 0xb2, 0x60, 0xdf, 0x2e]⟩

def highPerformance : PowerGuid :=
  ⟨0x8c5e7fda, 0xe8bf, 0x4a96, #v[0x9a, 0x85, 0xa6, 0xe2, 0x3a, 0x8c, 0x63, 0x5c]⟩

/-- The smallest processor state is 5 % on battery. -/
def balancedQuery : String :=
  "Subgroup GUID: 54533251-82be-4824-96c1-47b60b740d00\n" ++
    "Power Setting GUID: 893dee8e-2bef-41e0-89c6-b55d0929964c\n" ++
    "Current AC Power Setting Index: 0x64\n" ++ "Current DC Power Setting Index: 0x5\n"

def balancedMap : EffectiveMap :=
  [(OsPowerCollector.key "SUB_PROCESSOR" "PROCTHROTTLEMIN", (100, 5))]

def readUnder (wall : UInt64) (active : PowerGuid) (powercfg : Except String CommandOutput) :
    PowerRead :=
  ⟨⟨wall, wall⟩, (0, 10000), (0, some active), fun _ _ _ _ => (2, sentinel), powercfg, active⟩

def balancedRead : PowerRead :=
  readUnder 1000 balanced (.ok ⟨true, Utf8.encode balancedQuery.toList⟩)

/-- `powercfg` cannot be run after a change of the scheme. -/
def changedRead : PowerRead := readUnder 2000 highPerformance (.error "not enough memory")

/-- What lowering does to the letters of these texts. -/
def asciiLowercase (s : String) : String := .ofList (s.toList.map Char.toLower)

/-- The values of the old scheme are reported as those of the new one. -/
theorem changed_policies :
    ¬Runs.Meets (TracedPower.step asciiLowercase) (PoliciesBelong asciiLowercase) .start
      [balancedRead, changedRead] := by
  -- the text is parsed line by line, as taking the whole apart into characters is slow
  have happend : ∀ a b c d : String,
      (a ++ b ++ c ++ d).toList = a.toList ++ b.toList ++ c.toList ++ d.toList := by
    intro a b c d
    rw [String.toList_append, String.toList_append, String.toList_append]
  have htext : balancedQuery.toList = _ := happend _ _ _ _
  have hquery : parsePowercfgQuery asciiLowercase
      (Utf8.decodeLossy (Utf8.encode balancedQuery.toList)) = balancedMap := by
    rw [Utf8.decodeLossy_encode, htext]
    decide +kernel
  have hfirst : TracedPower.start.collector.takes asciiLowercase balancedRead =
      some ⟨balancedMap, balanced, 1000⟩ := by
    simp only [OsPowerCollector.takes, OsPowerCollector.Wants, TracedPower.start,
      OsPowerCollector.new, true_or, if_true, balancedRead, readUnder, queryEffective, hquery]
  have hsecond : ∀ t : TracedPower, t.collector.takes asciiLowercase changedRead = none := by
    intro t
    unfold OsPowerCollector.takes
    split <;> rfl
  rintro ⟨_, hrest⟩
  obtain ⟨hbelong, _⟩ := hrest _ rfl
  obtain ⟨_, snapshot, htaken, _, hscheme, _⟩ :=
    hbelong ⟨"SUB_PROCESSOR", "PROCTHROTTLEMIN", subProcessor, procThrottleMin,
      OsPowerRaw.cpuMin⟩ (by simp [settings]) 100 5
      (by rw [read_kept (hsecond _), read_taken hfirst]; rfl)
  rw [read_kept (hsecond _), read_taken hfirst] at htaken
  obtain rfl := Option.some.inj htaken
  have hdiffer : formatGuid highPerformance ≠ formatGuid balanced := by decide
  exact hdiffer (Reading.measured.inj hscheme)

end PowerForensics.Collectors
