import PowerForensics.Core.ArchiveManifest
import PowerForensics.System.Lookup
import PowerForensics.System.Merging

/-! # Loading an archive

The manifest gives the table of series and the identities; the records go into a store by
their millisecond and series, where a later record replaces an earlier one. A point of a
collector exists at a millisecond if some record of it does.
-/

namespace PowerForensics.Archive

open Json Session FirstSeen Merging Lookup

/-! ## The manifest -/

def asU16 (x : Binary64) : UInt16 := .ofNat (x.toUnsigned 16)

/-- The entry of a series; entries that lack a field are passed over. -/
def readSeries (m : JVal) : Option (Binary64 × Key) := do
  let id ← m.numAt "id"
  let collector ← m.strAt "collector"
  let metric ← m.strAt "metric"
  let extra ← m.strAt "extra"
  return (id, ⟨collector, metric, extra⟩)

/-- The table of series in the order of the manifest; no number occurs twice. -/
def readTable (table : List (UInt16 × Key)) : List JVal → Except Fault (List (UInt16 × Key))
  | [] => .ok table
  | m :: rest =>
      match readSeries m with
      | none => readTable table rest
      | some (id, series) =>
          if (table.lookup (asU16 id)).isSome then
            .error (.err s!"duplicate metric id {String.ofList id.display} in manifest")
          else readTable (table ++ [(asU16 id, series)]) rest

/-- The objects of an array of the manifest. -/
def listAt (manifest : JVal) (key : String) : List JVal := (manifest.arrAt key).getD []

def readGpu (g : JVal) : Option (String × Bool) := do
  let name ← g.strAt "name"
  let discrete ← g.boolAt "discrete"
  return (name, discrete)

structure ProcIdentity where
  pid : UInt32
  name : String
  ppid : UInt32
  startUnixMs : Option UInt64
  exitUnixMs : Option UInt64

def readProc (p : JVal) : Option (UInt16 × ProcIdentity) := do
  let id ← p.numAt "metric_id"
  let pid ← p.numAt "pid"
  return (asU16 id, ⟨asU32 pid, (p.strAt "name").getD "?", asU32 ((p.numAt "ppid").getD 0.0),
    optMs p "start_unix_ms", optMs p "exit_unix_ms"⟩)

structure NetIdentity where
  descr : String
  className : String
  iftype : String
  deriving DecidableEq

def readNet (a : JVal) : Option (String × NetIdentity) := do
  let aliasName ← a.strAt "alias"
  return (aliasName, ⟨(a.strAt "descr").getD "", (a.strAt "class").getD "",
    (a.strAt "iftype").getD ""⟩)

def readWifi (w : JVal) : Option (String × String) := do
  let descr ← w.strAt "descr"
  return (descr, (w.strAt "ssid").getD "")

def policyReading (p : JVal) (stamp : ClockStamp) (key : String) :
    Except Fault (Telemetry Binary64) :=
  match p.get key with
  | some o => evInner (some o) "os" stamp
  | none => .ok (missing "policy field missing" "os" stamp)

def readPolicy (p : JVal) : Except Fault (Binary64 × Policy) := do
  let t := (p.numAt "t").getD 0.0
  let pt := policyReading p ⟨0, asU64 (t * 1000.0)⟩
  let timerResolution ← pt "timer_resolution"
  let cpuMinAc ← pt "cpu_min_ac"
  let cpuMaxAc ← pt "cpu_max_ac"
  let cpuMinDc ← pt "cpu_min_dc"
  let cpuMaxDc ← pt "cpu_max_dc"
  let eppAc ← pt "epp_ac"
  let eppDc ← pt "epp_dc"
  let brightnessAc ← pt "brightness_ac"
  let brightnessDc ← pt "brightness_dc"
  let displayTimeoutAc ← pt "display_timeout_ac"
  let displayTimeoutDc ← pt "display_timeout_dc"
  let sleepTimeoutAc ← pt "sleep_timeout_ac"
  let sleepTimeoutDc ← pt "sleep_timeout_dc"
  let hibernateTimeoutAc ← pt "hibernate_timeout_ac"
  let hibernateTimeoutDc ← pt "hibernate_timeout_dc"
  let lowBattAc ← pt "low_batt_ac"
  let lowBattDc ← pt "low_batt_dc"
  let critBattAc ← pt "crit_batt_ac"
  let critBattDc ← pt "crit_batt_dc"
  return (t, { schemeName := p.strAt "scheme", schemeGuid := p.strAt "scheme_guid",
               policySnapshotWallMs := optMs p "snapshot_wall_ms",
               timerResolution, cpuMinAc, cpuMaxAc, cpuMinDc, cpuMaxDc, eppAc, eppDc,
               brightnessAc, brightnessDc, displayTimeoutAc, displayTimeoutDc, sleepTimeoutAc,
               sleepTimeoutDc, hibernateTimeoutAc, hibernateTimeoutDc, lowBattAc, lowBattDc,
               critBattAc, critBattDc })

def readBatteryEntry (e : JVal) : BatteryStaticEntry where
  index := asU32 ((e.numAt "index").getD 0.0)
  designedMwh := e.numAt "designed_mwh"
  fullMwh := e.numAt "full_mwh"
  cycleCount := (e.numAt "cycle_count").map asU32
  chemistry := nonEmpty (e.strAt "chemistry")
  deviceName := nonEmpty (e.strAt "device_name")
  uniqueId := nonEmpty (e.strAt "unique_id")
  technology := (e.numAt "technology").map asU32
  capabilities := (e.numAt "capabilities").map asU32
  temperatureRaw := (e.numAt "temperature_raw").map asU32
  mfgName := nonEmpty (e.strAt "mfg_name")
  mfgDate := nonEmpty (e.strAt "mfg_date")
  designProv := provWord (e.strAt "designed_prov")
  fullProv := provWord (e.strAt "full_prov")

def readBattery (manifest : JVal) : BatteryMeta :=
  match manifest.get "battery" with
  | none => default
  | some b =>
      { fullMwh := b.numAt "full_mwh"
        designMwh := b.numAt "design_mwh"
        batteryIndex := (b.numAt "index").map asU32
        batteryCount := (b.numAt "count").map asU32
        fullProv := provWord (b.strAt "full_prov")
        designProv := provWord (b.strAt "design_prov")
        batteries := (listAt b "batteries").map readBatteryEntry }

/-- The footer, unless it is null. -/
def readFooter (manifest : JVal) : Option JVal :=
  match manifest.get "footer" with
  | some .null => none
  | footer => footer

/-! ## The records -/

def collectorSource (name : String) : String :=
  if name ∈ ["battery", "cpu", "gpu", "proc", "display", "net", "storage", "usb", "self", "os"]
  then name else ""

/-- The reading of a record; a code that stands for no provenance is no value. -/
def tele (r : Rec) (source : String) : Except Fault (Telemetry Binary64) :=
  let stamp : ClockStamp := ⟨r.wall, r.mono⟩
  let quality := SampleQuality.fromU8 r.quality
  let present (value : Reading Binary64) : Telemetry Binary64 :=
    ⟨value, source, stamp, freshUnlessKnown quality, none⟩
  match r.val, r.prov with
  | some x, 0 => .ok (present (.measured x))
  | some x, 1 => .ok (present (.derived x))
  | some x, 2 => .ok (present (.estimated x))
  | _, _ => do
      let reason ← internReason r.reason
      return ⟨.unavailable reason, source, stamp, quality, some (.fromU8 r.kind)⟩

/-- The readings by millisecond and series, and the milliseconds with the wall clock of the
first record at each. -/
structure Store where
  scalar : List ((UInt64 × UInt16) × Telemetry Binary64)
  times : List (UInt64 × UInt64)

/-- A record of a series that the manifest has goes into the store. -/
def Store.add (table : List (UInt16 × Key)) (store : Store) (r : Rec) : Except Fault Store :=
  match table.lookup r.metric with
  | none => .ok store
  | some series => do
      let v ← tele r (collectorSource series.collector)
      return ⟨store.scalar ++ [((r.mono, r.metric), v)],
        see Prod.fst store.times (r.mono, r.wall)⟩

/-- The loop over the records. -/
def loadRecords (table : List (UInt16 × Key)) : Nat → List UInt8 → Store → Except Fault Store
  | 0, _, store => .ok store
  | fuel + 1, bytes, store =>
      if bytes = [] then .ok store
      else
        match getRec bytes with
        | none => .error (.err "truncated v2 record")
        | some (r, rest) => do
            let store ← store.add table r
            loadRecords table fuel rest store

/-! ## Points -/

/-- What the points are built from. -/
structure View where
  table : List (UInt16 × Key)
  /-- The number of a series. -/
  idOf : Key → Option UInt16
  store : Store
  gpuDisc : List (String × Bool)
  procIdent : List (UInt16 × ProcIdentity)
  netIdent : List (String × NetIdentity)
  wifiSsid : List (String × String)

namespace View

variable (view : View) (mono : UInt64)

def scalar (id : UInt16) : Option (Telemetry Binary64) := latest view.store.scalar (mono, id)

/-- A reading that was not archived. -/
def notArchived (collector : String) : Telemetry Binary64 :=
  missing "not archived" (collectorSource collector)
    ⟨(view.store.times.lookup mono).getD 0, mono⟩

def g (id : UInt16) : Telemetry Binary64 :=
  (view.scalar mono id).getD
    (view.notArchived mono (((view.table.lookup id).map Key.collector).getD ""))

/-- The end of an acquisition window, if it was archived. -/
def tms (id : UInt16) : Option UInt64 := (view.g mono id).val.map asU64

def window (startId endId : UInt16) : Window := ⟨view.tms mono startId, view.tms mono endId⟩

def dynamic (collector metric extra : String) : Telemetry Binary64 :=
  ((view.idOf ⟨collector, metric, extra⟩).bind (view.scalar mono)).getD
    (view.notArchived mono collector)

def present (collector metric extra : String) : Bool :=
  ((view.idOf ⟨collector, metric, extra⟩).bind (view.scalar mono)).isSome

def has (ids : List UInt16) : Bool := ids.any fun id => (view.scalar mono id).isSome

/-- The entities of a metric in the order of the manifest. -/
def extraList (collector metric : String) : List String :=
  ((view.table.filter fun e => dynamicBase ≤ e.1).filter fun e =>
    e.2.collector = collector ∧ e.2.metric = metric).map fun e => e.2.extra

/-- The entities of a metric that have a record. -/
def presentExtras (collector metric : String) : List String :=
  (view.extraList collector metric).filter (view.present mono collector metric)

/-- A truth value is stored as a number. -/
def holds (v : Telemetry Binary64) : Bool := (0.5 : Binary64) ≤ v.val.getD 0.0

def batteryAt : Option BatteryPoint :=
  if view.has mono [0, 1, 2, 3] then
    some ⟨seconds mono, view.g mono 0, view.g mono 1, view.g mono 2, view.g mono 3⟩
  else none

def batteryExtraAt : Option BatteryExtraPoint :=
  if view.has mono [23, 24, 25, 26, 27, 28] then
    some ⟨seconds mono, view.g mono 23, view.g mono 24, view.g mono 25, view.g mono 26,
      view.window mono 27 28⟩
  else none

def coreAt (inst : String) : CpuCorePoint :=
  ⟨inst, view.dynamic mono "cpu" "core.utility" inst, view.dynamic mono "cpu" "core.performance" inst,
    view.dynamic mono "cpu" "core.freq_mhz" inst, view.dynamic mono "cpu" "core.parking" inst⟩

/-- The key of a counter, if the metric is one. -/
def totalKey (series : Key) : Option String :=
  if series.collector = "cpu" then
    if "total.".toList <+: series.metric.toList then
      some (.ofList (series.metric.toList.drop 6))
    else none
  else none

/-- Every counter of the session is there at every point. -/
def totalsAt : List (String × Telemetry Binary64) :=
  view.table.filterMap fun e =>
    (totalKey e.2).map fun key => (key, view.dynamic mono "cpu" e.2.metric "")

def cpuAt : Option CpuPoint :=
  if view.has mono [4, 5, 6, 7, 29, 30, 31, 32] then
    some ⟨seconds mono, view.window mono 31 32, view.g mono 4, view.g mono 5, view.g mono 6,
      view.g mono 7, view.g mono 29, view.g mono 30,
      (view.presentExtras mono "cpu" "core.utility").map (view.coreAt mono), view.totalsAt mono⟩
  else none

/-- The processes of an adapter. -/
def topPidsAt (name : String) : List (UInt32 × Telemetry Binary64) :=
  (view.presentExtras mono "gpu" "top_pid_util_pct").filterMap fun key =>
    match splitOnce '|' key with
    | some (adapter, pid) =>
        if adapter = name then
          some ((parseU32 pid).getD 0, view.dynamic mono "gpu" "top_pid_util_pct" key)
        else none
    | none => none

def gpuAdapterAt (name : String) : GpuAdapterPoint :=
  let at_ (metric : String) := view.dynamic mono "gpu" metric name
  ⟨name, (latest view.gpuDisc name).getD false, at_ "total_util_pct", at_ "mem_dedicated_mb",
    at_ "mem_shared_mb", at_ "util_3d", at_ "util_compute", at_ "util_decode", at_ "util_codec",
    at_ "util_copy", at_ "util_other", at_ "engines_active", at_ "engines_seen",
    ((view.idOf ⟨"gpu", "awake", name⟩).bind (view.scalar mono)).map fun v => ⟨holds v, "", ""⟩,
    view.topPidsAt mono name⟩

def gpuAt : Option GpuPoint :=
  let adapters := (view.presentExtras mono "gpu" "total_util_pct").map (view.gpuAdapterAt mono)
  if adapters = [] then none
  else some ⟨seconds mono, view.window mono 36 37, holds (view.dynamic mono "gpu" "stale" ""),
    adapters⟩

/-- A process of the table: its identity is the one of the manifest, or else its key. -/
def procEntryAt (id : UInt16) (series : Key) (cpu : Telemetry Binary64) : ProcEntry :=
  match latest view.procIdent id with
  | some identity =>
      { pid := identity.pid
        ppid := identity.ppid
        name := identity.name
        startUnixMs := identity.startUnixMs
        exitUnixMs :=
          ((view.dynamic mono "proc" "exit_unix_ms" (procKey identity.pid identity.name)).val.map
            asU64).or identity.exitUnixMs
        cpu }
  | none =>
      let identity := procIdentity series.extra
      ⟨identity.1, 0, identity.2, none, none, cpu⟩

/-- The processes that have a record, in the order of their pids. -/
def topAt : List ProcEntry :=
  stableSort (fun e => e.pid.toNat) (view.table.filterMap fun e =>
    if e.2.collector = "proc" ∧ e.2.metric = "cpu_pct" then
      (view.scalar mono e.1).map (view.procEntryAt mono e.1 e.2)
    else none)

def procsAt : Option ProcPoint :=
  let coverage (metric : String) := (view.dynamic mono "proc" metric "").val
  let top := view.topAt mono
  if top = [] then none
  else some ⟨seconds mono, view.window mono 38 39, (coverage "coverage.total_threads").map asU64,
    (coverage "coverage.inaccessible").map asU64,
    (coverage "coverage.truncated").map fun v => decide ((0.5 : Binary64) ≤ v), top⟩

def displayEntryAt (name : String) : DisplayEntry :=
  let number (metric : String) := (view.dynamic mono "display" metric name).val
  ⟨name, ((number "primary").map fun v => decide ((0.5 : Binary64) ≤ v)).getD false,
    (number "width").map asU32, (number "height").map asU32, (number "freq_hz").map asU32,
    (number "bpp").map asU32, view.dynamic mono "display" "brightness_pct" name⟩

/-- Older archives have the fixed series of the first display only. -/
def displaysAt : List DisplayEntry :=
  let displays := (view.presentExtras mono "display" "brightness_pct").map (view.displayEntryAt mono)
  if displays = [] ∧ (view.scalar mono 8).isSome then
    [⟨"0", false, none, none, none, none, view.g mono 8⟩]
  else displays

def hdrTargetAt (extra : String) : HdrTargetRec :=
  let parts := splitOnce '|' extra
  ⟨(parts.map Prod.fst).getD extra, (parseU32 ((parts.map Prod.snd).getD "0")).getD 0,
    holds (view.dynamic mono "display" "hdr_supported" extra),
    holds (view.dynamic mono "display" "hdr_enabled" extra)⟩

def displayAt : Option DisplayPoint :=
  let displays := view.displaysAt mono
  let unmatched := (view.presentExtras mono "display" "unmatched_brightness").map fun inst =>
    (inst, (view.dynamic mono "display" "unmatched_brightness" inst).val)
  let hdr := (view.presentExtras mono "display" "hdr_supported").map (view.hdrTargetAt mono)
  if displays = [] ∧ unmatched = [] ∧ hdr = [] then none
  else some ⟨seconds mono, view.window mono 40 41,
    (displays.head?.map DisplayEntry.brightness).getD (view.g mono 8), displays, unmatched, hdr,
    none, []⟩

def netAdapterAt (aliasName : String) : NetAdapterRec :=
  let identity := (latest view.netIdent aliasName).getD ⟨"", "", ""⟩
  let number (metric : String) := (view.dynamic mono "net" metric aliasName).val
  { aliasName
    descr := identity.descr
    className := identity.className
    iftype := identity.iftype
    oper := number "adapter.oper"
    media := number "adapter.media"
    adminUp := ((number "adapter.admin_up").map fun v => decide ((0.5 : Binary64) ≤ v)).getD false
    txMbps := view.dynamic mono "net" "adapter.tx_mbps" aliasName
    rxMbps := view.dynamic mono "net" "adapter.rx_mbps" aliasName
    inOctets := view.dynamic mono "net" "adapter.in_octets" aliasName
    outOctets := view.dynamic mono "net" "adapter.out_octets" aliasName }

def throughputAt (inst : String) : String × Telemetry Binary64 × Telemetry Binary64 :=
  (inst, view.dynamic mono "net" "rx_bps" inst, view.dynamic mono "net" "tx_bps" inst)

def wifiAt (descr : String) : WifiRec :=
  ⟨descr, (view.dynamic mono "net" "wifi.state" descr).val, (latest view.wifiSsid descr).getD "",
    view.dynamic mono "net" "wifi.signal_pct" descr⟩

def netAt : Option NetPoint :=
  let adapters := (view.presentExtras mono "net" "adapter.oper").map (view.netAdapterAt mono)
  let throughput := (view.presentExtras mono "net" "rx_bps").map (view.throughputAt mono)
  let wifi := (view.presentExtras mono "net" "wifi.signal_pct").map (view.wifiAt mono)
  if view.has mono [9, 10] ∨ adapters ≠ [] ∨ throughput ≠ [] ∨ wifi ≠ [] then
    some ⟨seconds mono, view.window mono 42 43, view.g mono 9, view.g mono 10, adapters, throughput,
      wifi, [], ((view.dynamic mono "net" "topology_stale" "").val.map fun v =>
        decide ((0.5 : Binary64) < v)).getD false⟩
  else none

def storageAt : Option StoragePoint :=
  if view.has mono [11, 12, 13] then
    some ⟨seconds mono, view.window mono 44 45, view.g mono 11, view.g mono 12, view.g mono 13⟩
  else none

def usbClassOf (name : String) (v : Telemetry Binary64) : UsbClassCount :=
  ⟨name, ((v.val.map asU64).getD 0).toNat, v⟩

def usbAt : Option UsbPoint :=
  let classes :=
    builtinClasses.filterMap (fun c => (view.scalar mono c.2).map (usbClassOf c.1)) ++
      (view.presentExtras mono "usb" "count").map fun name =>
        usbClassOf name (view.dynamic mono "usb" "count" name)
  let powerDevices := view.presentExtras mono "usb" "power_device"
  if classes = [] ∧ powerDevices = [] then none
  else some ⟨seconds mono, view.window mono 46 47, classes, powerDevices, none, []⟩

def selfAt : Option SelfPoint :=
  if view.has mono [19, 20, 21, 22, 33, 34, 35] then
    some { t := seconds mono
           window := view.window mono 48 49
           cpuPct := view.g mono 19
           wsMb := view.g mono 20
           privMb := view.g mono 33
           ioReadB := view.g mono 34
           ioWriteB := view.g mono 21
           threads := view.g mono 22
           ctxSwitches := view.g mono 35 }
  else none

end View

/-! ## The whole archive -/

/-- The order in which the entries of a hash map are walked. -/
structure MapOrder where
  walk : List (UInt16 × Key) → List (UInt16 × Key)
  walk_perm : ∀ table, (walk table).Perm table

/-- The milliseconds in order; none occurs twice. -/
def sortTimes (times : List (UInt64 × UInt64)) : List (UInt64 × UInt64) :=
  stableSort (fun e => e.1.toNat) times

def viewOf (order : MapOrder) (manifest : JVal) (table : List (UInt16 × Key)) (store : Store) :
    View where
  table
  idOf := latest ((order.walk table).map fun e => (e.2, e.1))
  store := { store with times := sortTimes store.times }
  gpuDisc := (listAt manifest "gpu_adapters").filterMap readGpu
  procIdent := (listAt manifest "proc_identity").filterMap readProc
  netIdent := (listAt manifest "net_adapters").filterMap readNet
  wifiSsid := (listAt manifest "wifi_identity").filterMap readWifi

/-- An event line; a line that is no JSON is passed over. -/
def readEvent (line : String) : Option EventRec :=
  match parse line with
  | .error _ => none
  | .ok v => some ⟨wallMs v, asU64 ((v.numAt "mono_ms").getD 0.0), (v.strAt "kind").getD "?",
      (v.strAt "detail").getD ""⟩

/-- The session that is built from a view at every millisecond. -/
def View.session (view : View) (label : String) (wallBase : UInt64)
    (history : List (Binary64 × Policy)) (battery : BatteryMeta) (events : List EventRec)
    (footer : Option JVal) : SessionData :=
  let monos := view.store.times.map Prod.fst
  { label
    wallBaseMs := wallBase
    battery := monos.filterMap view.batteryAt
    batteryExtra := monos.filterMap view.batteryExtraAt
    cpu := monos.filterMap view.cpuAt
    gpu := monos.filterMap view.gpuAt
    procs := monos.filterMap view.procsAt
    display := monos.filterMap view.displayAt
    net := monos.filterMap view.netAt
    storage := monos.filterMap view.storageAt
    usb := monos.filterMap view.usbAt
    selfmon := monos.filterMap view.selfAt
    policy := (history.foldl (fun pol entry => if pol.schemeName.isNone then entry.2 else pol) default)
    policyHistory := history
    batteryMeta := battery
    events
    footer }

/-- Load an archive of the second format. -/
def loadArchiveV2 (order : MapOrder) (label manifestText : String) (bytes : List UInt8)
    (events : List String) : Except Fault SessionData :=
  match parse manifestText with
  | .error e => .error (.err s!"bad manifest: {e}")
  | .ok manifest =>
      if manifest.strAt "format" ≠ some "pf-archive-2" then
        .error (.err "not a pf-archive-2 manifest")
      else do
        let table ← readTable [] (listAt manifest "metrics")
        let store ← loadRecords table bytes.length bytes ⟨[], []⟩
        let history ← (listAt manifest "policy_history").mapM readPolicy
        return (viewOf order manifest table store).session label
          (asU64 ((manifest.numAt "wall_base_ms").getD 0.0)) history (readBattery manifest)
          (events.filterMap readEvent) (readFooter manifest)

end PowerForensics.Archive
