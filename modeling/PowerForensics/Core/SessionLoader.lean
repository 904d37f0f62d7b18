import PowerForensics.Core.Session

/-! # Loading a session

One loader per collector, a dispatcher on the record, and the loop over the lines. The
readings that a record holds are listed beside the loaders: a record is loaded without
a panic exactly if every reason among them can be kept.
-/

namespace PowerForensics.Session

open Json

/-! ## Clocks of a record -/

def monoS (v : JVal) : Binary64 := (v.numAt "mono_ms").getD 0.0 / 1000.0

def wallMs (v : JVal) : UInt64 := asU64 ((v.numAt "wall_ms").getD 0.0)

def optMs (v : JVal) (key : String) : Option UInt64 := (v.numAt key).map asU64

def windowOf (v : JVal) : Window := ⟨optMs v "t_start_ms", optMs v "t_end_ms"⟩

def stampOf (v : JVal) : ClockStamp := ⟨wallMs v, asU64 (monoS v * 1000.0)⟩

/-- The strings of an array; none when it is absent or no array. -/
def strList (v : JVal) (key : String) : List String :=
  ((v.arrAt key).getD []).filterMap JVal.asStr

/-- A provenance is one of four words; anything else is no provenance. -/
def provWord (p : Option String) : String :=
  match p with
  | some w =>
      if w ∈ ["measured", "derived", "estimated", "unavailable"] then w else "unavailable"
  | none => "unavailable"

def provOf (v : JVal) (key : String) : String := provWord ((v.get key).bind (·.strAt "p"))

/-! ## One loader per collector -/

/-- A text that is not empty. -/
def nonEmpty (s : Option String) : Option String := s.filter (· ≠ "")

def loadBatteryEntry (b : JVal) : BatteryStaticEntry where
  index := asU32 ((b.numAt "index").getD 0.0)
  designedMwh := b.numIn "designed_mwh"
  fullMwh := b.numIn "full_mwh"
  cycleCount := (b.numIn "cycle_count").map asU32
  chemistry := nonEmpty (b.strIn "chemistry")
  deviceName := nonEmpty (b.strIn "device_name")
  uniqueId := nonEmpty (b.strIn "unique_id")
  technology := (b.numIn "technology").map asU32
  capabilities := (b.numIn "capabilities").map asU32
  temperatureRaw := (b.numIn "temperature_raw").map asU32
  mfgName := nonEmpty (b.strIn "mfg_name")
  mfgDate := nonEmpty (b.strIn "mfg_date")
  designProv := provOf b "designed_mwh"
  fullProv := provOf b "full_mwh"

/-- What the record says at its top level is about the first interface. -/
def completeFirst (v : JVal) (first : BatteryStaticEntry) : BatteryStaticEntry :=
  { first with
    technology := first.technology.or ((v.numIn "technology").map asU32)
    capabilities := first.capabilities.or ((v.numIn "capabilities").map asU32)
    temperatureRaw := first.temperatureRaw.or ((v.numIn "temperature_raw").map asU32)
    mfgName := first.mfgName.or (nonEmpty (v.strIn "mfg_name"))
    mfgDate := first.mfgDate.or (nonEmpty (v.strIn "mfg_date")) }

/-- Battery metadata is filled in by the first records that have it. -/
def loadBatteryMeta (v : JVal) (bm : BatteryMeta) : BatteryMeta :=
  let bm :=
    if bm.fullMwh.isNone then
      { bm with fullMwh := v.numIn "full_charge_mwh", fullProv := provOf v "full_charge_mwh" }
    else bm
  let bm :=
    if bm.designMwh.isNone then
      { bm with designMwh := v.numIn "design_mwh", designProv := provOf v "design_mwh" }
    else bm
  let bm :=
    if bm.batteryCount.isNone then
      { bm with
        batteryCount := (v.numIn "battery_count").map asU32
        batteryIndex := (v.numIn "battery_index").map asU32 }
    else bm
  let batteries :=
    if bm.batteries.isEmpty then ((v.arrAt "batteries").getD []).map loadBatteryEntry
    else bm.batteries
  { bm with
    batteries :=
      match batteries with
      | [] => []
      | first :: rest => completeFirst v first :: rest }

/-- Milliwatt-hours of the wire in watt-hours; the scaled copy is derived. -/
def scaledReading : Reading Binary64 → Reading Binary64
  | .measured x => .derived (x / 1000.0)
  | .derived x => .derived (x / 1000.0)
  | .estimated x => .estimated (x / 1000.0)
  | .unavailable r => .unavailable r

def loadBattery (v : JVal) (stamp : ClockStamp) (s : SessionData) :
    Except Fault SessionData := do
  let t := seconds stamp.monoMillis
  let remMwh ← ev v "remaining_mwh" "battery" stamp
  let discharge ← ev v "discharge_w" "battery" stamp
  let charge ← ev v "charge_w" "battery" stamp
  let pct ← ev v "charge_pct" "battery" stamp
  let ac ← evBool v "ac" "battery" stamp
  let rateMw ← ev v "rate_mw" "battery" stamp
  let health ← ev v "health" "battery" stamp
  let temperatureRaw ← ev v "temperature_raw" "battery" stamp
  return { s with
    batteryMeta := loadBatteryMeta v s.batteryMeta
    battery := s.battery ++
      [⟨t, discharge, charge, { remMwh with value := scaledReading remMwh.value }, pct⟩]
    batteryExtra := s.batteryExtra ++ [⟨t, ac, rateMw, health, temperatureRaw, windowOf v⟩] }

/-- The counters with a field of their own. -/
def dedicatedTotals : List String := ["utility", "c3_pct", "idle_breaks", "ctx_switches"]

def loadCpuSub (parent : Option JVal) (key : String) (stamp : ClockStamp) :
    Except Fault (Telemetry Binary64) :=
  match parent with
  | some o => ev o key "cpu" stamp
  | none => .ok (missing "parent object missing" "cpu" stamp)

def loadCore (stamp : ClockStamp) (c : JVal) : Except Fault CpuCorePoint := do
  let utility ← ev c "utility" "cpu" stamp
  let performance ← ev c "performance" "cpu" stamp
  let freqMhz ← ev c "freq_mhz" "cpu" stamp
  let parking ← ev c "parking" "cpu" stamp
  return ⟨(c.strAt "inst").getD "?", utility, performance, freqMhz, parking⟩

/-- The keys of an object that have no field of their own. -/
def totalKeys : Option JVal → List String
  | some (.obj pairs) => (pairs.map Prod.fst).filter (· ∉ dedicatedTotals)
  | _ => []

def loadTotal (totals : Option JVal) (stamp : ClockStamp) (key : String) :
    Except Fault (String × Telemetry Binary64) := do
  let v ← evInner (totals.bind (·.get key)) "cpu" stamp
  return (key, v)

def loadCpu (v : JVal) (stamp : ClockStamp) (s : SessionData) : Except Fault SessionData := do
  let totals := v.get "totals"
  let energy := v.get "energy"
  let extra ← (totalKeys totals).mapM (loadTotal totals stamp)
  let cores ← ((v.arrAt "cores").getD []).mapM (loadCore stamp)
  let utility ← loadCpuSub totals "utility" stamp
  let c3Pct ← loadCpuSub totals "c3_pct" stamp
  let idleBreaks ← loadCpuSub totals "idle_breaks" stamp
  let pkgDerivedW ← loadCpuSub energy "pkg_derived_w" stamp
  let pkgPowerW ← loadCpuSub energy "pkg_power_w" stamp
  let ctxSwitches ← loadCpuSub totals "ctx_switches" stamp
  return { s with
    cpu := s.cpu ++ [⟨seconds stamp.monoMillis, windowOf v, utility, c3Pct, idleBreaks,
      pkgDerivedW, pkgPowerW, ctxSwitches, cores, extra⟩] }

def loadTopPid (stamp : ClockStamp) (p : JVal) : Except Fault (UInt32 × Telemetry Binary64) := do
  let util ← ev p "util_pct" "gpu" stamp
  return (((p.numAt "pid").map asU32).getD 0, util)

def loadAwake (aw : JVal) : AwakeRec :=
  ⟨(aw.boolAt "active").getD false, (aw.strAt "confidence").getD "",
    (aw.strAt "evidence").getD ""⟩

def loadAdapter (stamp : ClockStamp) (a : JVal) : Except Fault GpuAdapterPoint := do
  let topPids ← ((a.arrAt "top_pids").getD []).mapM (loadTopPid stamp)
  let totalUtil ← ev a "total_util_pct" "gpu" stamp
  let memDedicatedMb ← ev a "mem_dedicated_mb" "gpu" stamp
  let memSharedMb ← ev a "mem_shared_mb" "gpu" stamp
  let util3d ← ev a "util_3d" "gpu" stamp
  let utilCompute ← ev a "util_compute" "gpu" stamp
  let utilDecode ← ev a "util_decode" "gpu" stamp
  let utilCodec ← ev a "util_codec" "gpu" stamp
  let utilCopy ← ev a "util_copy" "gpu" stamp
  let utilOther ← ev a "util_other" "gpu" stamp
  let enginesActive ← ev a "engines_active" "gpu" stamp
  let enginesSeen ← ev a "engines_seen" "gpu" stamp
  return ⟨(a.strAt "name").getD "?", (a.boolAt "discrete").getD false, totalUtil,
    memDedicatedMb, memSharedMb, util3d, utilCompute, utilDecode, utilCodec, utilCopy,
    utilOther, enginesActive, enginesSeen, (a.get "awake").map loadAwake, topPids⟩

def loadGpu (v : JVal) (stamp : ClockStamp) (s : SessionData) : Except Fault SessionData := do
  let adapters ← ((v.arrAt "adapters").getD []).mapM (loadAdapter stamp)
  return { s with
    gpu := s.gpu ++ [⟨seconds stamp.monoMillis, windowOf v, (v.boolAt "stale").getD false,
      adapters⟩] }

def loadProc (stamp : ClockStamp) (p : JVal) : Except Fault ProcEntry := do
  let cpu ← ev p "cpu_pct" "proc" stamp
  return ⟨((p.numAt "pid").map asU32).getD 0, ((p.numAt "ppid").map asU32).getD 0,
    (p.strAt "name").getD "?", optMs p "start_unix_ms", optMs p "exit_unix_ms", cpu⟩

def loadProcs (v : JVal) (stamp : ClockStamp) (s : SessionData) : Except Fault SessionData := do
  let top ← ((v.arrAt "top").getD []).mapM (loadProc stamp)
  return { s with
    procs := s.procs ++ [⟨seconds stamp.monoMillis, windowOf v, optMs v "total_threads",
      optMs v "inaccessible", v.boolAt "truncated", top⟩] }

def loadDisplayEntry (stamp : ClockStamp) (d : JVal) : Except Fault DisplayEntry := do
  let brightness ← ev d "brightness_pct" "display" stamp
  return ⟨(d.strAt "name").getD "?", (d.boolAt "primary").getD false,
    (d.numAt "width").map asU32, (d.numAt "height").map asU32, (d.numAt "freq_hz").map asU32,
    (d.numAt "bpp").map asU32, brightness⟩

def loadHdrTarget (h : JVal) : HdrTargetRec :=
  ⟨(h.strAt "adapter").getD "", asU32 ((h.numAt "target").getD 0.0),
    (h.boolAt "supported").getD false, (h.boolAt "enabled").getD false⟩

def loadDisplay (v : JVal) (stamp : ClockStamp) (s : SessionData) : Except Fault SessionData := do
  let displays ← ((v.arrAt "displays").getD []).mapM (loadDisplayEntry stamp)
  let brightness :=
    (displays.head?.map DisplayEntry.brightness).getD (missing "no displays listed" "display" stamp)
  return { s with
    display := s.display ++ [⟨seconds stamp.monoMillis, windowOf v, brightness, displays,
      ((v.arrAt "unmatched_sensors").getD []).map fun u =>
        ((u.strAt "instance").getD "", u.numAt "brightness"),
      ((v.arrAt "hdr_targets").getD []).map loadHdrTarget, v.strAt "hdr_error",
      strList v "changes"⟩] }

def mediaCode (s : String) : Option Binary64 :=
  if s = "Unknown" then some 0.0
  else if s = "Connected" then some 1.0
  else if s = "Disconnected" then some 2.0
  else none

def wifiStateCode (s : String) : Option Binary64 :=
  if s = "not-ready" then some 0.0
  else if s = "connected" then some 1.0
  else if s = "adhoc" then some 2.0
  else if s = "disconnecting" then some 3.0
  else if s = "disconnected" then some 4.0
  else if s = "associating" then some 5.0
  else if s = "discovering" then some 6.0
  else if s = "authenticating" then some 7.0
  else none

def loadNetAdapter (stamp : ClockStamp) (a : JVal) : Except Fault NetAdapterRec := do
  let txMbps ← plainNum a "tx_mbps" "net" stamp
  let rxMbps ← plainNum a "rx_mbps" "net" stamp
  let inOctets ← plainNum a "in_octets" "net" stamp
  let outOctets ← plainNum a "out_octets" "net" stamp
  return ⟨(a.strAt "alias").getD "", (a.strAt "descr").getD "", (a.strAt "class").getD "",
    (a.strAt "iftype").getD "", a.numAt "oper", (a.strAt "media").bind mediaCode,
    (a.boolAt "admin_up").getD false, txMbps, rxMbps, inOctets, outOctets⟩

def loadThroughput (stamp : ClockStamp) (p : JVal) :
    Except Fault (String × Telemetry Binary64 × Telemetry Binary64) := do
  let rx ← ev p "rx_bps" "net" stamp
  let tx ← ev p "tx_bps" "net" stamp
  return ((p.strAt "instance").getD "", rx, tx)

def loadWifi (stamp : ClockStamp) (w : JVal) : Except Fault WifiRec := do
  let signalPct ← ev w "signal_pct" "net" stamp
  return ⟨(w.strAt "descr").getD "", (w.strAt "state").bind wifiStateCode,
    (w.strAt "ssid").getD "", signalPct⟩

def loadNet (v : JVal) (stamp : ClockStamp) (s : SessionData) : Except Fault SessionData := do
  let adapters ← ((v.arrAt "adapters").getD []).mapM (loadNetAdapter stamp)
  let throughput ← ((v.arrAt "throughput").getD []).mapM (loadThroughput stamp)
  let wifi ← ((v.arrAt "wifi").getD []).mapM (loadWifi stamp)
  let totalRx ← ev v "total_rx_bps" "net" stamp
  let totalTx ← ev v "total_tx_bps" "net" stamp
  return { s with
    net := s.net ++ [⟨seconds stamp.monoMillis, windowOf v, totalRx, totalTx, adapters,
      throughput, wifi, strList v "changes", (v.boolAt "topology_stale").getD false⟩] }

/-- The disk record that stands for all disks. -/
def totalDisk (v : JVal) : JVal :=
  (((v.arrAt "disks").getD []).find? fun d =>
    (d.boolAt "total").getD false ∨ d.strAt "instance" = some "_Total").getD .null

def loadStorage (v : JVal) (stamp : ClockStamp) (s : SessionData) : Except Fault SessionData := do
  let total := totalDisk v
  let diskTime ← ev total "disk_time_pct" "storage" stamp
  let readBps ← ev total "read_bps" "storage" stamp
  let writeBps ← ev total "write_bps" "storage" stamp
  return { s with
    storage := s.storage ++ [⟨seconds stamp.monoMillis, windowOf v, diskTime, readBps,
      writeBps⟩] }

/-- The count of a group is its own evidence; else it is derived from its devices. -/
def loadUsbClass (stamp : ClockStamp) (g : JVal) : Except Fault UsbClassCount := do
  let devices := g.arrAt "devices"
  let n := (devices.map List.length).getD 0
  let evidence ←
    match g.get "count", devices with
    | some _, _ => ev g "count" "usb" stamp
    | none, some _ => pure (.derived (.ofNat n) "usb" stamp)
    | none, none => pure (missing "no device evidence in usb group" "usb" stamp)
  return ⟨(g.strAt "class").getD "?", n, evidence⟩

def loadUsb (v : JVal) (stamp : ClockStamp) (s : SessionData) : Except Fault SessionData := do
  let classes ← ((v.arrAt "groups").getD []).mapM (loadUsbClass stamp)
  return { s with
    usb := s.usb ++ [⟨seconds stamp.monoMillis, windowOf v, classes, strList v "power_devices",
      v.strAt "power_error", strList v "changes"⟩] }

def loadSelfmon (v : JVal) (stamp : ClockStamp) (s : SessionData) : Except Fault SessionData := do
  let cpuPct ← ev v "cpu_pct" "self" stamp
  let wsMb ← ev v "ws_mb" "self" stamp
  let privMb ← ev v "priv_mb" "self" stamp
  let ioReadB ← ev v "io_read_b" "self" stamp
  let ioWriteB ← ev v "io_write_b" "self" stamp
  let threads ← ev v "threads" "self" stamp
  let ctxSwitches ← ev v "ctx_switches_s" "self" stamp
  return { s with
    selfmon := s.selfmon ++ [⟨seconds stamp.monoMillis, windowOf v, cpuPct, wsMb, privMb, ioReadB,
      ioWriteB, threads, ctxSwitches⟩] }

/-- One side of a setting for mains and for battery. -/
def policySide (v : JVal) (key which : String) (stamp : ClockStamp) :
    Except Fault (Telemetry Binary64) :=
  match (v.get key).bind (·.get which) with
  | some o => evInner (some o) "os" stamp
  | none => .ok (missing "policy field missing" "os" stamp)

def policyPair (v : JVal) (key : String) (stamp : ClockStamp) :
    Except Fault (Telemetry Binary64 × Telemetry Binary64) := do
  let ac ← policySide v key "ac" stamp
  let dc ← policySide v key "dc" stamp
  return (ac, dc)

/-- The first snapshot is the headline; every snapshot goes into the history. -/
def addPolicy (t : Binary64) (pol : Policy) (s : SessionData) : SessionData :=
  { s with
    policy := if s.policy.schemeName.isNone then pol else s.policy
    policyHistory := s.policyHistory ++ [(t, pol)] }

def loadPolicy (v : JVal) (stamp : ClockStamp) (s : SessionData) : Except Fault SessionData := do
  let (cpuMinAc, cpuMinDc) ← policyPair v "cpu_min_pct" stamp
  let (cpuMaxAc, cpuMaxDc) ← policyPair v "cpu_max_pct" stamp
  let (eppAc, eppDc) ← policyPair v "epp" stamp
  let (brightnessAc, brightnessDc) ← policyPair v "brightness_pct" stamp
  let (displayTimeoutAc, displayTimeoutDc) ← policyPair v "display_timeout_s" stamp
  let (sleepTimeoutAc, sleepTimeoutDc) ← policyPair v "sleep_timeout_s" stamp
  let (hibernateTimeoutAc, hibernateTimeoutDc) ← policyPair v "hibernate_timeout_s" stamp
  let (lowBattAc, lowBattDc) ← policyPair v "low_batt_pct" stamp
  let (critBattAc, critBattDc) ← policyPair v "crit_batt_pct" stamp
  let timerResolution ← ev v "timer_resolution_ms" "os" stamp
  return addPolicy (seconds stamp.monoMillis)
    { schemeName := v.strAt "scheme_name"
      schemeGuid := v.strIn "active_scheme"
      policySnapshotWallMs := optMs v "policy_snapshot_wall_ms"
      timerResolution, cpuMinAc, cpuMaxAc, cpuMinDc, cpuMaxDc, eppAc, eppDc, brightnessAc,
      brightnessDc, displayTimeoutAc, displayTimeoutDc, sleepTimeoutAc, sleepTimeoutDc,
      hibernateTimeoutAc, hibernateTimeoutDc, lowBattAc, lowBattDc, critBattAc, critBattDc } s

/-! ## Records and lines -/

/-- The loader of a collector. -/
def collectorLoader (collector : String) :
    Option (JVal → ClockStamp → SessionData → Except Fault SessionData) :=
  if collector = "battery" then some loadBattery
  else if collector = "cpu" then some loadCpu
  else if collector = "gpu" then some loadGpu
  else if collector = "proc" then some loadProcs
  else if collector = "display" then some loadDisplay
  else if collector = "net" then some loadNet
  else if collector = "storage" then some loadStorage
  else if collector = "usb" then some loadUsb
  else if collector = "self" then some loadSelfmon
  else if collector = "os_power" then some loadPolicy
  else none

/-- The entry of a name, or one of those behind it. -/
theorem eq_or_of_ite {α : Type} {name key : String} {a b : α} {rest : Option α}
    (h : (if name = key then some a else rest) = some b) : (key = name ∧ a = b) ∨ rest = some b := by
  split at h
  next hname => exact Or.inl ⟨hname.symm, Option.some.inj h⟩
  next hname => exact Or.inr h

/-- What holds of the ten loaders holds of the loader of every collector. -/
@[elab_as_elim]
theorem collectorLoader_cases {motive : (collector : String) →
      (load : JVal → ClockStamp → SessionData → Except Fault SessionData) →
      collectorLoader collector = some load → Prop}
    (battery : motive "battery" loadBattery rfl) (cpu : motive "cpu" loadCpu rfl)
    (gpu : motive "gpu" loadGpu rfl) (procs : motive "proc" loadProcs rfl)
    (display : motive "display" loadDisplay rfl) (net : motive "net" loadNet rfl)
    (storage : motive "storage" loadStorage rfl) (usb : motive "usb" loadUsb rfl)
    (selfmon : motive "self" loadSelfmon rfl) (policy : motive "os_power" loadPolicy rfl)
    {collector : String} {load : JVal → ClockStamp → SessionData → Except Fault SessionData}
    (hload : collectorLoader collector = some load) : motive collector load hload := by
  have hcases := hload
  unfold collectorLoader at hcases
  obtain ⟨rfl, rfl⟩ | hcases := eq_or_of_ite hcases
  · exact battery
  obtain ⟨rfl, rfl⟩ | hcases := eq_or_of_ite hcases
  · exact cpu
  obtain ⟨rfl, rfl⟩ | hcases := eq_or_of_ite hcases
  · exact gpu
  obtain ⟨rfl, rfl⟩ | hcases := eq_or_of_ite hcases
  · exact procs
  obtain ⟨rfl, rfl⟩ | hcases := eq_or_of_ite hcases
  · exact display
  obtain ⟨rfl, rfl⟩ | hcases := eq_or_of_ite hcases
  · exact net
  obtain ⟨rfl, rfl⟩ | hcases := eq_or_of_ite hcases
  · exact storage
  obtain ⟨rfl, rfl⟩ | hcases := eq_or_of_ite hcases
  · exact usb
  obtain ⟨rfl, rfl⟩ | hcases := eq_or_of_ite hcases
  · exact selfmon
  obtain ⟨rfl, rfl⟩ | hcases := eq_or_of_ite hcases
  · exact policy
  cases hcases
def loadEvent (v : JVal) (stamp : ClockStamp) : EventRec :=
  ⟨wallMs v, stamp.monoMillis, (v.strAt "kind").getD "?", (v.strAt "detail").getD ""⟩

/-- One record. -/
def loadRecord (v : JVal) (s : SessionData) : Except Fault SessionData :=
  let s := if s.wallBaseMs = 0 then { s with wallBaseMs := wallMs v } else s
  let stamp := stampOf v
  match (v.strAt "collector").bind collectorLoader with
  | some load => load v stamp s
  | none =>
      if v.strAt "type" = some "event" then .ok { s with events := s.events ++ [loadEvent v stamp] }
      else if v.strAt "type" = some "session_footer" then .ok { s with footer := v.get "summary" }
      else .ok s

/-- The loop over the lines; the number is the one of the next line. -/
def loadLines (number : Nat) (ls : List (List Char)) (s : SessionData) :
    Except Fault SessionData :=
  match ls with
  | [] => .ok s
  | line :: rest =>
      let text := Lines.trim line
      if text = [] then loadLines (number + 1) rest s
      else
        match parse (String.ofList text) with
        | .error e => .error (.err s!"line {number}: {e}")
        | .ok v =>
            match loadRecord v s with
            | .error fault => .error fault
            | .ok s => loadLines (number + 1) rest s

/-- A whole session. -/
def loadSession (label text : String) : Except Fault SessionData :=
  loadLines 1 (Lines.lines text.toList) { (default : SessionData) with label }

end PowerForensics.Session
