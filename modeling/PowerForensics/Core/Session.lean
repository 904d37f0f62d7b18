import PowerForensics.Core.Json
import PowerForensics.Core.Telemetry
import PowerForensics.Text.Lines

/-! # Session loader

The lines of a session are read back into typed series. A line that is no JSON fails
the whole load with its number. Every value becomes a reading with its evidence; the
reason of an absent value is kept up to 256 bytes, and cutting a longer one inside a
character is a panic of the string library.
-/

namespace PowerForensics

/-! ## Reading fields of a value -/

namespace Json.JVal

def numAt (v : JVal) (key : String) : Option Binary64 := (v.get key).bind num?
def strAt (v : JVal) (key : String) : Option String := (v.get key).bind asStr
def boolAt (v : JVal) (key : String) : Option Bool := (v.get key).bind asBool
def arrAt (v : JVal) (key : String) : Option (List JVal) := (v.get key).bind arr?

/-- The number in the envelope under a key. -/
def numIn (v : JVal) (key : String) : Option Binary64 := (v.get key).bind (·.numAt "v")
def strIn (v : JVal) (key : String) : Option String := (v.get key).bind (·.strAt "v")

end Json.JVal

namespace Session

open Json

/-! ## Conversions between number types -/

def asU64 (x : Binary64) : UInt64 := UInt64.ofNat (x.toUnsigned 64)
def asU32 (x : Binary64) : UInt32 := UInt32.ofNat (x.toUnsigned 32)
def asU8 (x : Binary64) : UInt8 := UInt8.ofNat (x.toUnsigned 8)
def ofU64 (n : UInt64) : Binary64 := .ofNat n.toNat
def ofU32 (n : UInt32) : Binary64 := .ofNat n.toNat

/-- Seconds of a count of milliseconds. -/
def seconds (ms : UInt64) : Binary64 := ofU64 ms / 1000.0

/-! ## Evidence -/

/-- The front of a text up to a number of bytes; `none` when it would split a character. -/
def truncate : Nat → List Char → Option (List Char)
  | 0, _ => some []
  | _ + 1, [] => some []
  | n + 1, c :: cs =>
      if c.utf8Size ≤ n + 1 then (truncate (n + 1 - c.utf8Size) cs).map (c :: ·) else none

def knownReasons : List String :=
  ["no system battery", "not reported by battery interface", "not discharging (on AC or idle)",
    "not charging", "design capacity unknown", "counter missing or not ready",
    "energy instance missing or warming up", "warming up (first tick)",
    "process inaccessible (protected/system)", "setting not present in active scheme",
    "no stored override", "active scheme unknown", "PowerGetActiveScheme failed",
    "NtQueryTimerResolution failed", "no WMI sensor matched", "WMI brightness query failed",
    "counter not ready", "no device evidence in usb group", "no reason recorded",
    "present value with unknown provenance kind"]

def reasonLimit : Nat := 256

/-- A stored reason as it is kept. -/
def internReason (s : String) : Except Fault String :=
  if s ∈ knownReasons then .ok s
  else
    match truncate reasonLimit s.toList with
    | some cs => .ok (String.ofList cs)
    | none => .error (.panic "assertion failed: self.is_char_boundary(new_len)")

/-- A present value keeps the quality it is stored with, if any is known. -/
def freshUnlessKnown (q : SampleQuality) : SampleQuality :=
  if q = .unknown then .fresh else q

/-- A present value of a known provenance. -/
def present? (p : Option String) (x : Binary64) : Option (Reading Binary64) :=
  if p = some "measured" then some (.measured x)
  else if p = some "derived" then some (.derived x)
  else if p = some "estimated" then some (.estimated x)
  else none

/-- A bare number: its provenance is known, its freshness is not. -/
def bareNumber (n : Binary64) (source : String) (stamp : ClockStamp) : Telemetry Binary64 :=
  ⟨.measured n, source, stamp, .unknown, none⟩

/-- The reason an envelope is stored with. -/
def storedReason (inner : Option JVal) : String :=
  (inner.bind (·.strAt "reason")).getD "no reason recorded"

/-- Evidence of an envelope. -/
def evInner (inner : Option JVal) (source : String) (stamp : ClockStamp) :
    Except Fault (Telemetry Binary64) :=
  match inner.bind JVal.num? with
  | some n => .ok (bareNumber n source stamp)
  | none =>
      let kind := ((inner.bind (·.numAt "k")).map fun k => UnavailKind.fromU8 (asU8 k)).getD
        .notSampled
      let quality := ((inner.bind (·.numAt "q")).map fun q => SampleQuality.fromU8 (asU8 q)).getD
        .unknown
      match inner.bind (·.numAt "v") with
      | some x =>
          match present? (inner.bind (·.strAt "p")) x with
          | some value => .ok ⟨value, source, stamp, freshUnlessKnown quality, none⟩
          | none => do
              let reason ← internReason "present value with unknown provenance kind"
              return ⟨.unavailable reason, source, stamp, .unknown, some .notSampled⟩
      | none => do
          let reason ← internReason (storedReason inner)
          return ⟨.unavailable reason, source, stamp, quality, some kind⟩

/-- Evidence of the envelope under a key. -/
def ev (obj : JVal) (key source : String) (stamp : ClockStamp) :
    Except Fault (Telemetry Binary64) :=
  evInner (obj.get key) source stamp

/-- A field that is not there at all. -/
def missing (reason source : String) (stamp : ClockStamp) : Telemetry Binary64 :=
  .unavailable .notSampled reason source stamp

/-- Evidence of an envelope whose value is a truth value. -/
def evBool (obj : JVal) (key source : String) (stamp : ClockStamp) :
    Except Fault (Telemetry Binary64) :=
  match obj.get key with
  | some o =>
      match o.asBool.or (o.boolAt "v") with
      | some b => .ok (.measured (if b then 1.0 else 0.0) source stamp)
      | none => evInner (some o) source stamp
  | none => .ok (missing "field missing" source stamp)

/-- Evidence of a field that may be a plain number. -/
def plainNum (obj : JVal) (key source : String) (stamp : ClockStamp) :
    Except Fault (Telemetry Binary64) :=
  match obj.get key with
  | some v =>
      match v.num? with
      | some n => .ok (bareNumber n source stamp)
      | none => evInner (some v) source stamp
  | none => .ok (missing "field missing" source stamp)

/-! ## The series of a session -/

/-- The monotonic acquisition window of a sample, where one was reported. -/
structure Window where
  tStartMs : Option UInt64
  tEndMs : Option UInt64
  deriving Inhabited

structure BatteryPoint where
  t : Binary64
  discharge : Telemetry Binary64
  charge : Telemetry Binary64
  remainingWh : Telemetry Binary64
  pct : Telemetry Binary64
  deriving Inhabited

structure BatteryExtraPoint where
  t : Binary64
  ac : Telemetry Binary64
  rateMw : Telemetry Binary64
  health : Telemetry Binary64
  temperatureRaw : Telemetry Binary64
  window : Window
  deriving Inhabited

structure CpuCorePoint where
  inst : String
  utility : Telemetry Binary64
  performance : Telemetry Binary64
  freqMhz : Telemetry Binary64
  parking : Telemetry Binary64
  deriving Inhabited

structure CpuPoint where
  t : Binary64
  window : Window
  utility : Telemetry Binary64
  c3Pct : Telemetry Binary64
  idleBreaks : Telemetry Binary64
  pkgDerivedW : Telemetry Binary64
  pkgPowerW : Telemetry Binary64
  ctxSwitches : Telemetry Binary64
  cores : List CpuCorePoint
  /-- The remaining counters by their key. -/
  totals : List (String × Telemetry Binary64)
  deriving Inhabited

structure AwakeRec where
  active : Bool
  confidence : String
  evidence : String
  deriving Inhabited

structure GpuAdapterPoint where
  name : String
  discrete : Bool
  totalUtil : Telemetry Binary64
  memDedicatedMb : Telemetry Binary64
  memSharedMb : Telemetry Binary64
  util3d : Telemetry Binary64
  utilCompute : Telemetry Binary64
  utilDecode : Telemetry Binary64
  utilCodec : Telemetry Binary64
  utilCopy : Telemetry Binary64
  utilOther : Telemetry Binary64
  enginesActive : Telemetry Binary64
  enginesSeen : Telemetry Binary64
  awake : Option AwakeRec
  topPids : List (UInt32 × Telemetry Binary64)
  deriving Inhabited

structure GpuPoint where
  t : Binary64
  window : Window
  stale : Bool
  adapters : List GpuAdapterPoint
  deriving Inhabited

structure ProcEntry where
  pid : UInt32
  ppid : UInt32
  name : String
  startUnixMs : Option UInt64
  exitUnixMs : Option UInt64
  cpu : Telemetry Binary64
  deriving Inhabited

structure ProcPoint where
  t : Binary64
  window : Window
  totalThreads : Option UInt64
  /-- Processes that could not be inspected; none is unknown, not zero. -/
  inaccessible : Option UInt64
  truncated : Option Bool
  top : List ProcEntry
  deriving Inhabited

structure DisplayEntry where
  name : String
  primary : Bool
  width : Option UInt32
  height : Option UInt32
  freqHz : Option UInt32
  bpp : Option UInt32
  brightness : Telemetry Binary64
  deriving Inhabited

structure HdrTargetRec where
  adapter : String
  target : UInt32
  supported : Bool
  enabled : Bool
  deriving Inhabited

structure DisplayPoint where
  t : Binary64
  window : Window
  brightness : Telemetry Binary64
  displays : List DisplayEntry
  unmatchedSensors : List (String × Option Binary64)
  hdrTargets : List HdrTargetRec
  hdrError : Option String
  changes : List String
  deriving Inhabited

structure NetAdapterRec where
  aliasName : String
  descr : String
  className : String
  iftype : String
  oper : Option Binary64
  media : Option Binary64
  adminUp : Bool
  txMbps : Telemetry Binary64
  rxMbps : Telemetry Binary64
  inOctets : Telemetry Binary64
  outOctets : Telemetry Binary64
  deriving Inhabited

structure WifiRec where
  descr : String
  state : Option Binary64
  ssid : String
  signalPct : Telemetry Binary64
  deriving Inhabited

structure NetPoint where
  t : Binary64
  window : Window
  totalRx : Telemetry Binary64
  totalTx : Telemetry Binary64
  adapters : List NetAdapterRec
  throughput : List (String × Telemetry Binary64 × Telemetry Binary64)
  wifi : List WifiRec
  changes : List String
  topologyStale : Bool
  deriving Inhabited

structure StoragePoint where
  t : Binary64
  window : Window
  diskTime : Telemetry Binary64
  readBps : Telemetry Binary64
  writeBps : Telemetry Binary64
  deriving Inhabited

structure UsbClassCount where
  className : String
  count : Nat
  evidence : Telemetry Binary64
  deriving Inhabited

structure UsbPoint where
  t : Binary64
  window : Window
  classes : List UsbClassCount
  powerDevices : List String
  powerError : Option String
  changes : List String
  deriving Inhabited

structure SelfPoint where
  t : Binary64
  window : Window
  cpuPct : Telemetry Binary64
  wsMb : Telemetry Binary64
  privMb : Telemetry Binary64
  ioReadB : Telemetry Binary64
  ioWriteB : Telemetry Binary64
  threads : Telemetry Binary64
  ctxSwitches : Telemetry Binary64
  deriving Inhabited

structure Policy where
  schemeName : Option String
  schemeGuid : Option String
  policySnapshotWallMs : Option UInt64
  timerResolution : Telemetry Binary64
  cpuMinAc : Telemetry Binary64
  cpuMaxAc : Telemetry Binary64
  cpuMinDc : Telemetry Binary64
  cpuMaxDc : Telemetry Binary64
  eppAc : Telemetry Binary64
  eppDc : Telemetry Binary64
  brightnessAc : Telemetry Binary64
  brightnessDc : Telemetry Binary64
  displayTimeoutAc : Telemetry Binary64
  displayTimeoutDc : Telemetry Binary64
  sleepTimeoutAc : Telemetry Binary64
  sleepTimeoutDc : Telemetry Binary64
  hibernateTimeoutAc : Telemetry Binary64
  hibernateTimeoutDc : Telemetry Binary64
  lowBattAc : Telemetry Binary64
  lowBattDc : Telemetry Binary64
  critBattAc : Telemetry Binary64
  critBattDc : Telemetry Binary64
  deriving Inhabited

structure BatteryStaticEntry where
  index : UInt32
  designedMwh : Option Binary64
  fullMwh : Option Binary64
  cycleCount : Option UInt32
  chemistry : Option String
  deviceName : Option String
  uniqueId : Option String
  technology : Option UInt32
  capabilities : Option UInt32
  temperatureRaw : Option UInt32
  mfgName : Option String
  mfgDate : Option String
  designProv : String
  fullProv : String

structure BatteryMeta where
  fullMwh : Option Binary64
  designMwh : Option Binary64
  batteryIndex : Option UInt32
  batteryCount : Option UInt32
  fullProv : String
  designProv : String
  batteries : List BatteryStaticEntry

instance : Inhabited BatteryMeta := ⟨⟨none, none, none, none, "unavailable", "unavailable", []⟩⟩

structure EventRec where
  wallMs : UInt64
  monoMs : UInt64
  kind : String
  detail : String
  deriving DecidableEq, Inhabited

structure SessionData where
  label : String
  /-- The first wall clock that is not zero. -/
  wallBaseMs : UInt64
  battery : List BatteryPoint
  batteryExtra : List BatteryExtraPoint
  cpu : List CpuPoint
  gpu : List GpuPoint
  procs : List ProcPoint
  display : List DisplayPoint
  net : List NetPoint
  storage : List StoragePoint
  usb : List UsbPoint
  selfmon : List SelfPoint
  policy : Policy
  policyHistory : List (Binary64 × Policy)
  batteryMeta : BatteryMeta
  events : List EventRec
  footer : Option JVal
  deriving Inhabited

end Session

end PowerForensics
