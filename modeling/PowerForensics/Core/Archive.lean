import PowerForensics.Core.ArchiveRecord
import PowerForensics.Core.JsonDoc
import PowerForensics.Core.Millis
import PowerForensics.System.Lookup

/-! # Writing an archive

A session is migrated into a manifest, a stream of records and the lines of its events.
Every series has a number: the scalar series from a fixed table, the series of adapters,
processes, interfaces and counters from a table that is filled as they are seen. The
manifest is put together as a document; the machine and the hash of the source come from
the host.
-/

namespace PowerForensics.Archive

open Json Session FirstSeen

/-! ## Series -/

/-- What a series is of. -/
structure Key where
  collector : String
  metric : String
  extra : String
  deriving DecidableEq

/-- The collectors, metrics and units of the series with fixed numbers. -/
def staticMetrics : List (String × String × String) :=
  [("battery", "discharge_w", "W"), ("battery", "charge_w", "W"), ("battery", "remaining_wh", "Wh"),
    ("battery", "charge_pct", "%"), ("cpu", "utility_pct", "%"), ("cpu", "c3_pct", "%"),
    ("cpu", "idle_breaks_s", "/s"), ("cpu", "pkg_derived_w", "W"),
    ("display", "brightness_pct", "%"),
    ("net", "total_rx_bps", "B/s"), ("net", "total_tx_bps", "B/s"),
    ("storage", "disk_time_pct", "%"),
    ("storage", "read_bps", "B/s"), ("storage", "write_bps", "B/s"), ("usb", "count.usb", "n"),
    ("usb", "count.bluetooth", "n"), ("usb", "count.camera", "n"), ("usb", "count.audio", "n"),
    ("usb", "count.hid", "n"), ("self", "cpu_pct", "%"), ("self", "ws_mb", "MB"),
    ("self", "io_write_b", "B"), ("self", "threads", "n"), ("battery", "ac", "bool"),
    ("battery", "rate_mw", "mW"), ("battery", "health", "ratio"),
    ("battery", "temperature_raw", "raw"),
    ("battery", "t_start_ms", "ms"), ("battery", "t_end_ms", "ms"), ("cpu", "pkg_power_w", "W"),
    ("cpu", "ctx_switches", "/s"), ("cpu", "t_start_ms", "ms"), ("cpu", "t_end_ms", "ms"),
    ("self", "priv_mb", "MB"), ("self", "io_read_b", "B"), ("self", "ctx_switches_s", "ctx/s"),
    ("gpu", "t_start_ms", "ms"), ("gpu", "t_end_ms", "ms"), ("proc", "t_start_ms", "ms"),
    ("proc", "t_end_ms", "ms"), ("display", "t_start_ms", "ms"), ("display", "t_end_ms", "ms"),
    ("net", "t_start_ms", "ms"), ("net", "t_end_ms", "ms"), ("storage", "t_start_ms", "ms"),
    ("storage", "t_end_ms", "ms"), ("usb", "t_start_ms", "ms"), ("usb", "t_end_ms", "ms"),
    ("self", "t_start_ms", "ms"), ("self", "t_end_ms", "ms")]

structure DynEntry where
  id : UInt16
  series : Key
  unit : String

/-- The series with numbers of their own, and the next number. -/
structure DynTable where
  entries : List DynEntry
  next : UInt16

def dynamicBase : UInt16 := 1000

/-- A series is registered once. -/
def DynTable.register (tbl : DynTable) (series : Key) (unit : String) : DynTable :=
  if (tbl.entries.find? fun d => d.series = series).isSome then tbl
  else ⟨tbl.entries ++ [⟨tbl.next, series, unit⟩], tbl.next + 1⟩

def DynTable.idOf (tbl : DynTable) (collector metric extra : String) : Option UInt16 :=
  (tbl.entries.find? fun d => d.series = ⟨collector, metric, extra⟩).map DynEntry.id

def gpuMetrics : List (String × String) :=
  [("total_util_pct", "engine-%"), ("mem_dedicated_mb", "MB"), ("mem_shared_mb", "MB"),
    ("util_3d", "engine-%"), ("util_compute", "engine-%"), ("util_decode", "engine-%"),
    ("util_codec", "engine-%"), ("util_copy", "engine-%"), ("util_other", "engine-%"),
    ("engines_active", "n"), ("engines_seen", "n"), ("awake", "bool")]

def coreMetrics : List (String × String) :=
  [("core.utility", "%"), ("core.performance", "%"), ("core.freq_mhz", "MHz"),
    ("core.parking", "raw")]

def displayMetrics : List (String × String) :=
  [("brightness_pct", "%"), ("width", "px"), ("height", "px"), ("freq_hz", "Hz"), ("bpp", "bit"),
    ("primary", "bool")]

def adapterMetrics : List (String × String) :=
  [("adapter.tx_mbps", "Mbps"), ("adapter.rx_mbps", "Mbps"), ("adapter.in_octets", "B"),
    ("adapter.out_octets", "B"), ("adapter.oper", "state"), ("adapter.media", "state"),
    ("adapter.admin_up", "bool")]

def coverageMetrics : List (String × String) :=
  [("coverage.total_threads", "n"), ("coverage.inaccessible", "n"), ("coverage.truncated", "bool")]

/-- Two texts with a character between them. -/
def joined (left : List Char) (c : Char) (right : List Char) : String :=
  .ofList (left ++ c :: right)

def decimal (n : Nat) : List Char := Nat.toDigits 10 n

def topPidKey (name : String) (pid : UInt32) : String := joined name.toList '|' (decimal pid.toNat)

def procKey (pid : UInt32) (name : String) : String := joined (decimal pid.toNat) ':' name.toList

def hdrKey (h : HdrTargetRec) : String := joined h.adapter.toList '|' (decimal h.target.toNat)

def totalMetric (key : String) : String := "total." ++ key

/-- The adapters of a session by their names, with the flag that was seen first. -/
def gpuNames (s : SessionData) : List (String × Bool) :=
  firstSeen Prod.fst (s.gpu.flatMap fun g => g.adapters.map fun a => (a.name, a.discrete))

/-- The processes of a session by their pids, as they were seen first. -/
def procPids (s : SessionData) : List ProcEntry :=
  firstSeen ProcEntry.pid (s.procs.flatMap ProcPoint.top)

/-- The processes that ever reported an exit. -/
def procExitNames (s : SessionData) : List String :=
  firstSeen id (((s.procs.flatMap ProcPoint.top).filter (·.exitUnixMs.isSome)).map fun e =>
    procKey e.pid e.name)

/-- Series of one entity. -/
def seriesOf (collector : String) (metrics : List (String × String)) (extra : String) :
    List (Key × String) :=
  metrics.map fun m => (⟨collector, m.1, extra⟩, m.2)

/-- The USB classes that have a fixed series. -/
def builtinClasses : List (String × UInt16) :=
  [("usb", 14), ("bluetooth", 15), ("camera", 16), ("audio", 17), ("hid", 18)]

def isBuiltinClass (name : String) : Bool := name ∈ builtinClasses.map Prod.fst

def gpuSeries (s : SessionData) : List (Key × String) :=
  (gpuNames s).flatMap (fun g => seriesOf "gpu" gpuMetrics g.1) ++
    [(⟨"gpu", "stale", ""⟩, "bool"), (⟨"net", "topology_stale", ""⟩, "bool")] ++
    s.gpu.flatMap fun g => g.adapters.flatMap fun a => a.topPids.map fun p =>
      (⟨"gpu", "top_pid_util_pct", topPidKey a.name p.1⟩, "%")

def procSeries (s : SessionData) : List (Key × String) :=
  (procPids s).map (fun e => (⟨"proc", "cpu_pct", procKey e.pid e.name⟩, "%")) ++
    (procExitNames s).map (fun key => (⟨"proc", "exit_unix_ms", key⟩, "ms")) ++
    seriesOf "proc" coverageMetrics ""

def cpuSeries (s : SessionData) : List (Key × String) :=
  s.cpu.flatMap fun c =>
    c.cores.flatMap (fun core => seriesOf "cpu" coreMetrics core.inst) ++
      c.totals.map fun total => (⟨"cpu", totalMetric total.1, ""⟩, "?")

def displaySeries (s : SessionData) : List (Key × String) :=
  s.display.flatMap fun d =>
    d.displays.flatMap (fun e => seriesOf "display" displayMetrics e.name) ++
      d.unmatchedSensors.map (fun u => (⟨"display", "unmatched_brightness", u.1⟩, "%")) ++
      d.hdrTargets.flatMap fun h =>
        seriesOf "display" [("hdr_supported", "bool"), ("hdr_enabled", "bool")] (hdrKey h)

def netSeries (s : SessionData) : List (Key × String) :=
  s.net.flatMap fun n =>
    n.throughput.flatMap (fun p => seriesOf "net" [("rx_bps", "B/s"), ("tx_bps", "B/s")] p.1) ++
      n.adapters.flatMap (fun a => seriesOf "net" adapterMetrics a.aliasName) ++
      n.wifi.flatMap fun w =>
        seriesOf "net" [("wifi.signal_pct", "%"), ("wifi.state", "state")] w.descr

def usbSeries (s : SessionData) : List (Key × String) :=
  s.usb.flatMap fun u =>
    (u.classes.filter fun c => !isBuiltinClass c.className).map
        (fun c => (⟨"usb", "count", c.className⟩, "n")) ++
      u.powerDevices.map fun p => (⟨"usb", "power_device", p⟩, "bool")

/-- Every series of a session that has no fixed number, in the order it is registered. -/
def dynSeries (s : SessionData) : List (Key × String) :=
  gpuSeries s ++ procSeries s ++ cpuSeries s ++ displaySeries s ++ netSeries s ++ usbSeries s

def dynTable (s : SessionData) : DynTable :=
  (dynSeries s).foldl (fun tbl r => tbl.register r.1 r.2) ⟨[], dynamicBase⟩

/-! ## Samples -/

/-- A reading under the number of its series at a time. -/
structure Sample where
  t : Binary64
  id : UInt16
  v : Telemetry Binary64

def provCode : Reading Binary64 → UInt8
  | .measured _ => 0
  | .derived _ => 1
  | .estimated _ => 2
  | .unavailable _ => 3

def absenceReason : Reading Binary64 → String
  | .unavailable r => r
  | _ => ""

/-- The wall clock of a record is derived from the base of the session. -/
def Sample.toRec (wallBase : UInt64) (x : Sample) : Rec where
  mono := recMillis x.t
  wall := wallBase + recMillis x.t
  metric := x.id
  prov := provCode x.v.value
  kind := (x.v.unavailKind.getD .notSampled).code
  quality := x.v.quality.code
  val := x.v.val
  reason := absenceReason x.v.value

def measured (x : Binary64) : Telemetry Binary64 := .measured x "" default

def flag (b : Bool) : Telemetry Binary64 := measured (if b then 1.0 else 0.0)

/-- A number, or the absence of one that was not reported. -/
def reported (x : Option Binary64) (reason source : String) : Telemetry Binary64 :=
  match x with
  | some x => measured x
  | none => .unavailable .notSampled reason source default

/-- The ends of an acquisition window, where they were reported. -/
def windowSamples (t : Binary64) (startId endId : UInt16) (w : Window) : List Sample :=
  (w.tStartMs.map fun ms => ⟨t, startId, measured (ofU64 ms)⟩).toList ++
    (w.tEndMs.map fun ms => ⟨t, endId, measured (ofU64 ms)⟩).toList

section Samples

variable (tbl : DynTable)

/-- A reading of a registered series. -/
def sampleAt (t : Binary64) (collector metric extra : String) (v : Telemetry Binary64) :
    List Sample :=
  ((tbl.idOf collector metric extra).map fun id => ⟨t, id, v⟩).toList

def batterySamples (s : SessionData) : List Sample :=
  s.battery.zipIdx.flatMap fun (b, i) =>
    [⟨b.t, 0, b.discharge⟩, ⟨b.t, 1, b.charge⟩, ⟨b.t, 2, b.remainingWh⟩, ⟨b.t, 3, b.pct⟩] ++
      s.batteryExtra[i]?.toList.flatMap fun x =>
        [⟨x.t, 23, x.ac⟩, ⟨x.t, 24, x.rateMw⟩, ⟨x.t, 25, x.health⟩, ⟨x.t, 26, x.temperatureRaw⟩]

def batteryWindows (s : SessionData) : List Sample :=
  s.battery.zipIdx.flatMap fun (_, i) =>
    s.batteryExtra[i]?.toList.flatMap fun x => windowSamples x.t 27 28 x.window

def coreSamples (t : Binary64) (core : CpuCorePoint) : List Sample :=
  sampleAt tbl t "cpu" "core.utility" core.inst core.utility ++
    sampleAt tbl t "cpu" "core.performance" core.inst core.performance ++
    sampleAt tbl t "cpu" "core.freq_mhz" core.inst core.freqMhz ++
    sampleAt tbl t "cpu" "core.parking" core.inst core.parking

def cpuSamples (c : CpuPoint) : List Sample :=
  [⟨c.t, 4, c.utility⟩, ⟨c.t, 5, c.c3Pct⟩, ⟨c.t, 6, c.idleBreaks⟩, ⟨c.t, 7, c.pkgDerivedW⟩,
      ⟨c.t, 29, c.pkgPowerW⟩, ⟨c.t, 30, c.ctxSwitches⟩] ++
    c.cores.flatMap (coreSamples tbl c.t) ++
    c.totals.flatMap fun total => sampleAt tbl c.t "cpu" (totalMetric total.1) "" total.2

def gpuAdapterSamples (t : Binary64) (a : GpuAdapterPoint) : List Sample :=
  ([("total_util_pct", a.totalUtil), ("mem_dedicated_mb", a.memDedicatedMb),
      ("mem_shared_mb", a.memSharedMb), ("util_3d", a.util3d), ("util_compute", a.utilCompute),
      ("util_decode", a.utilDecode), ("util_codec", a.utilCodec), ("util_copy", a.utilCopy),
      ("util_other", a.utilOther), ("engines_active", a.enginesActive),
      ("engines_seen", a.enginesSeen)].flatMap fun m => sampleAt tbl t "gpu" m.1 a.name m.2) ++
    a.awake.toList.flatMap (fun aw => sampleAt tbl t "gpu" "awake" a.name (flag aw.active)) ++
    a.topPids.flatMap fun p =>
      sampleAt tbl t "gpu" "top_pid_util_pct" (topPidKey a.name p.1) p.2

def gpuSamples (g : GpuPoint) : List Sample :=
  sampleAt tbl g.t "gpu" "stale" "" (flag g.stale) ++ g.adapters.flatMap (gpuAdapterSamples tbl g.t)

def procEntrySamples (t : Binary64) (e : ProcEntry) : List Sample :=
  sampleAt tbl t "proc" "cpu_pct" (procKey e.pid e.name) e.cpu ++
    e.exitUnixMs.toList.flatMap fun exit =>
      sampleAt tbl t "proc" "exit_unix_ms" (procKey e.pid e.name) (measured (ofU64 exit))

/-- Coverage is written only where the collector reported it. -/
def procSamples (p : ProcPoint) : List Sample :=
  p.totalThreads.toList.flatMap (fun n =>
      sampleAt tbl p.t "proc" "coverage.total_threads" "" (measured (ofU64 n))) ++
    p.inaccessible.toList.flatMap (fun n =>
      sampleAt tbl p.t "proc" "coverage.inaccessible" "" (measured (ofU64 n))) ++
    p.truncated.toList.flatMap (fun b => sampleAt tbl p.t "proc" "coverage.truncated" "" (flag b)) ++
    p.top.flatMap (procEntrySamples tbl p.t)

def displayEntrySamples (t : Binary64) (e : DisplayEntry) : List Sample :=
  sampleAt tbl t "display" "brightness_pct" e.name e.brightness ++
    ([("width", e.width), ("height", e.height), ("freq_hz", e.freqHz), ("bpp", e.bpp)].flatMap
      fun m => sampleAt tbl t "display" m.1 e.name
        (reported (m.2.map ofU32) "display mode not reported" "display")) ++
    sampleAt tbl t "display" "primary" e.name (flag e.primary)

/-- The first display has the fixed series as well. -/
def displaySamples (d : DisplayPoint) : List Sample :=
  d.displays.head?.toList.map (fun first => ⟨d.t, 8, first.brightness⟩) ++
    d.displays.flatMap (displayEntrySamples tbl d.t) ++
    d.unmatchedSensors.flatMap (fun u =>
      sampleAt tbl d.t "display" "unmatched_brightness" u.1
        (reported u.2 "unmatched sensor brightness not reported" "display")) ++
    d.hdrTargets.flatMap fun h =>
      sampleAt tbl d.t "display" "hdr_supported" (hdrKey h) (flag h.supported) ++
        sampleAt tbl d.t "display" "hdr_enabled" (hdrKey h) (flag h.enabled)

def netAdapterSamples (t : Binary64) (a : NetAdapterRec) : List Sample :=
  ([("adapter.tx_mbps", a.txMbps), ("adapter.rx_mbps", a.rxMbps),
      ("adapter.in_octets", a.inOctets), ("adapter.out_octets", a.outOctets),
      ("adapter.oper", reported a.oper "adapter state not reported" "net"),
      ("adapter.media", reported a.media "adapter state not reported" "net"),
      ("adapter.admin_up", flag a.adminUp)].flatMap fun m =>
    sampleAt tbl t "net" m.1 a.aliasName m.2)

def netSamples (n : NetPoint) : List Sample :=
  [⟨n.t, 9, n.totalRx⟩, ⟨n.t, 10, n.totalTx⟩] ++
    sampleAt tbl n.t "net" "topology_stale" "" (flag n.topologyStale) ++
    n.throughput.flatMap (fun p =>
      sampleAt tbl n.t "net" "rx_bps" p.1 p.2.1 ++ sampleAt tbl n.t "net" "tx_bps" p.1 p.2.2) ++
    n.adapters.flatMap (netAdapterSamples tbl n.t) ++
    n.wifi.flatMap fun w =>
      sampleAt tbl n.t "net" "wifi.signal_pct" w.descr w.signalPct ++
        sampleAt tbl n.t "net" "wifi.state" w.descr (reported w.state "wifi state not reported" "net")

def storageSamples (d : StoragePoint) : List Sample :=
  [⟨d.t, 11, d.diskTime⟩, ⟨d.t, 12, d.readBps⟩, ⟨d.t, 13, d.writeBps⟩]

def usbClassId (name : String) : Option UInt16 :=
  (builtinClasses.lookup name).or (tbl.idOf "usb" "count" name)

def usbSamples (u : UsbPoint) : List Sample :=
  u.classes.flatMap (fun c =>
      ((usbClassId tbl c.className).map fun id => ⟨u.t, id, c.evidence⟩).toList) ++
    u.powerDevices.flatMap fun p => sampleAt tbl u.t "usb" "power_device" p (flag true)

def selfSamples (m : SelfPoint) : List Sample :=
  [⟨m.t, 19, m.cpuPct⟩, ⟨m.t, 20, m.wsMb⟩, ⟨m.t, 21, m.ioWriteB⟩, ⟨m.t, 22, m.threads⟩,
    ⟨m.t, 33, m.privMb⟩, ⟨m.t, 34, m.ioReadB⟩, ⟨m.t, 35, m.ctxSwitches⟩]

/-- The windows of a session; they are written behind the readings. -/
def windows (s : SessionData) : List Sample :=
  batteryWindows s ++
    s.cpu.flatMap (fun c => windowSamples c.t 31 32 c.window) ++
    s.gpu.flatMap (fun g => windowSamples g.t 36 37 g.window) ++
    s.procs.flatMap (fun p => windowSamples p.t 38 39 p.window) ++
    s.display.flatMap (fun d => windowSamples d.t 40 41 d.window) ++
    s.net.flatMap (fun n => windowSamples n.t 42 43 n.window) ++
    s.storage.flatMap (fun d => windowSamples d.t 44 45 d.window) ++
    s.usb.flatMap (fun u => windowSamples u.t 46 47 u.window) ++
    s.selfmon.flatMap fun m => windowSamples m.t 48 49 m.window

def samples (s : SessionData) : List Sample :=
  batterySamples s ++ s.cpu.flatMap (cpuSamples tbl) ++ s.gpu.flatMap (gpuSamples tbl) ++
    s.procs.flatMap (procSamples tbl) ++ s.display.flatMap (displaySamples tbl) ++
    s.net.flatMap (netSamples tbl) ++ s.storage.flatMap storageSamples ++
    s.usb.flatMap (usbSamples tbl) ++ s.selfmon.flatMap selfSamples ++ windows s

end Samples

end PowerForensics.Archive
