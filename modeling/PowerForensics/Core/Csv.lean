import PowerForensics.Binary64.Decimal
import PowerForensics.Core.Session

/-! # Rows of the CSV export

Every point of a series gives rows of evidence, one for each reading. The series are the
sources of the export; their rows are merged by time with a heap that holds the next
row of each source. The text has a cell quoting for the free columns only.
-/

namespace PowerForensics

def UnavailKind.asStr : UnavailKind → String
  | unsupported => "unsupported"
  | transientError => "transient"
  | notSampled => "not-sampled"
  | stale => "stale"

def SampleQuality.asStr : SampleQuality → String
  | fresh => "fresh"
  | repeatedCached => "repeated"
  | stale => "stale"
  | error => "error"
  | unknown => "unknown"

namespace Session

/-! ## Rows -/

/-- One row with its whole evidence. -/
structure RawRow where
  monoS : Binary64
  wallMs : UInt64
  collector : String
  metric : String
  extra : String
  /-- None for an absent reading. -/
  value : Option Binary64
  provenance : String
  quality : String
  unavailableKind : Option String
  reason : String
  deriving DecidableEq

/-- The eight columns of the text; cells are texts except the time. -/
structure CsvRow where
  monoS : Binary64
  collector : List Char
  metric : List Char
  extra : List Char
  value : List Char
  provenance : List Char
  reason : List Char
  quality : List Char

def RawRow.toCsv (row : RawRow) : CsvRow where
  monoS := row.monoS
  collector := row.collector.toList
  metric := row.metric.toList
  extra := row.extra.toList
  value := (row.value.map Binary64.display).getD []
  provenance := row.provenance.toList
  reason := row.reason.toList
  quality := row.quality.toList

def csvRow (t : Binary64) (c m e : String) (v : Telemetry Binary64) : RawRow where
  monoS := t
  wallMs := v.stamp.wallMillis
  collector := c
  metric := m
  extra := e
  value := v.val
  provenance := v.value.provenance.asStr
  quality := v.quality.asStr
  unavailableKind := v.unavailKind.map UnavailKind.asStr
  reason :=
    match v.value with
    | .unavailable r => r
    | _ => ""

/-! ## Sources -/

def batteryRows (b : BatteryPoint) : List RawRow :=
  [csvRow b.t "battery" "discharge_w" "" b.discharge, csvRow b.t "battery" "charge_w" "" b.charge,
    csvRow b.t "battery" "remaining_wh" "" b.remainingWh,
    csvRow b.t "battery" "charge_pct" "" b.pct]

def coreRows (t : Binary64) (core : CpuCorePoint) : List RawRow :=
  [csvRow t "cpu" "core.utility" core.inst core.utility,
    csvRow t "cpu" "core.performance" core.inst core.performance,
    csvRow t "cpu" "core.freq_mhz" core.inst core.freqMhz,
    csvRow t "cpu" "core.parking" core.inst core.parking]

/-- The keys of the counters are the metrics of their rows. -/
def cpuRows (c : CpuPoint) : List RawRow :=
  [csvRow c.t "cpu" "utility_pct" "" c.utility, csvRow c.t "cpu" "c3_pct" "" c.c3Pct,
    csvRow c.t "cpu" "idle_breaks_s" "" c.idleBreaks,
    csvRow c.t "cpu" "pkg_derived_w" "" c.pkgDerivedW,
    csvRow c.t "cpu" "pkg_power_w" "" c.pkgPowerW,
    csvRow c.t "cpu" "ctx_switches_s" "" c.ctxSwitches] ++
    c.totals.map (fun total => csvRow c.t "cpu" total.1 "" total.2) ++
    c.cores.flatMap (coreRows c.t)

def batteryExtraRows (b : BatteryExtraPoint) : List RawRow :=
  [csvRow b.t "battery" "ac" "" b.ac, csvRow b.t "battery" "rate_mw" "" b.rateMw,
    csvRow b.t "battery" "health" "" b.health,
    csvRow b.t "battery" "temperature_raw" "" b.temperatureRaw]

def adapterRows (t : Binary64) (a : GpuAdapterPoint) : List RawRow :=
  [csvRow t "gpu" "total_util_pct" a.name a.totalUtil,
    csvRow t "gpu" "mem_dedicated_mb" a.name a.memDedicatedMb,
    csvRow t "gpu" "mem_shared_mb" a.name a.memSharedMb] ++
    [("util_3d", a.util3d), ("util_compute", a.utilCompute), ("util_decode", a.utilDecode),
      ("util_codec", a.utilCodec), ("util_copy", a.utilCopy), ("util_other", a.utilOther),
      ("engines_active", a.enginesActive), ("engines_seen", a.enginesSeen)].map
        (fun m => csvRow t "gpu" m.1 a.name m.2) ++
    a.topPids.map fun p => csvRow t "gpu" "top_pid_util_pct" s!"{a.name}:{p.1.toNat}" p.2

def gpuRows (g : GpuPoint) : List RawRow := g.adapters.flatMap (adapterRows g.t)

def procRows (p : ProcPoint) : List RawRow :=
  p.top.map fun e => csvRow p.t "proc" "cpu_pct" s!"{e.pid.toNat}:{e.name}" e.cpu

/-- A mode of a display as a reading, at no wall clock. -/
def modeReading (t : Binary64) (mode : Option UInt32) : Telemetry Binary64 :=
  let stamp : ClockStamp := ⟨0, asU64 (t * 1000.0)⟩
  match mode with
  | some n => .measured (ofU32 n) "display" stamp
  | none => .unavailable .notSampled "display mode not reported" "display" stamp

/-- A display without a name goes by its index. -/
def displayId (i : Nat) (e : DisplayEntry) : String := if e.name = "" then toString i else e.name

def displayEntryRows (t : Binary64) (i : Nat) (e : DisplayEntry) : List RawRow :=
  let id := displayId i e
  [csvRow t "display" "brightness_pct" id e.brightness,
    csvRow t "display" "width" id (modeReading t e.width),
    csvRow t "display" "height" id (modeReading t e.height),
    csvRow t "display" "freq_hz" id (modeReading t e.freqHz),
    csvRow t "display" "bpp" id (modeReading t e.bpp)]

def displayRows (d : DisplayPoint) : List RawRow :=
  d.displays.zipIdx.flatMap fun (e, i) => displayEntryRows d.t i e

def netRows (n : NetPoint) : List RawRow :=
  [csvRow n.t "net" "total_rx_bps" "" n.totalRx, csvRow n.t "net" "total_tx_bps" "" n.totalTx] ++
    n.throughput.flatMap (fun (inst, rx, tx) =>
      [csvRow n.t "net" "rx_bps" inst rx, csvRow n.t "net" "tx_bps" inst tx]) ++
    n.wifi.map fun w => csvRow n.t "net" "wifi_signal_pct" w.descr w.signalPct

def storageRows (d : StoragePoint) : List RawRow :=
  [csvRow d.t "storage" "disk_time_pct" "_total" d.diskTime,
    csvRow d.t "storage" "read_bps" "_total" d.readBps,
    csvRow d.t "storage" "write_bps" "_total" d.writeBps]

def usbRows (u : UsbPoint) : List RawRow :=
  u.classes.map fun c => csvRow u.t "usb" "device_count" c.className c.evidence

def selfRows (m : SelfPoint) : List RawRow :=
  [csvRow m.t "self" "cpu_pct" "" m.cpuPct, csvRow m.t "self" "ws_mb" "" m.wsMb,
    csvRow m.t "self" "priv_mb" "" m.privMb, csvRow m.t "self" "io_read_b" "" m.ioReadB,
    csvRow m.t "self" "io_write_b" "" m.ioWriteB, csvRow m.t "self" "threads" "" m.threads,
    csvRow m.t "self" "ctx_switches_s" "" m.ctxSwitches]

/-- The rows of every series, in the order that breaks ties. -/
def csvSources (s : SessionData) : List (List RawRow) :=
  [s.battery.flatMap batteryRows, s.cpu.flatMap cpuRows, s.batteryExtra.flatMap batteryExtraRows,
    s.gpu.flatMap gpuRows, s.procs.flatMap procRows, s.display.flatMap displayRows,
    s.net.flatMap netRows, s.storage.flatMap storageRows, s.usb.flatMap usbRows,
    s.selfmon.flatMap selfRows]

/-! ## The heap -/

structure CsvMergeItem where
  t : Binary64
  block : Nat
  seq : Nat
  row : RawRow

/-- The order of the heap is reversed: the earliest item is the greatest. -/
def CsvMergeItem.cmp (a b : CsvMergeItem) : Ordering :=
  (b.t.totalCmp a.t).then ((compare b.block a.block).then (compare b.seq a.seq))

/-- A binary heap by its items, the greatest first. -/
abbrev BinaryHeap := List CsvMergeItem

def BinaryHeap.push (heap : BinaryHeap) (item : CsvMergeItem) : BinaryHeap :=
  List.orderedInsert (fun a b => a.cmp b ≠ .lt) item heap

/-! ## The merge -/

structure CsvMerge where
  /-- What is left of the sources. -/
  sources : List (List RawRow)
  nextSeq : List Nat
  heap : BinaryHeap

/-- The first row of every source that has one. -/
def firstItems (sources : List (List RawRow)) : List CsvMergeItem :=
  sources.zipIdx.filterMap fun (source, block) =>
    source.head?.map fun row => ⟨row.monoS, block, 0, row⟩

def CsvMerge.start (sources : List (List RawRow)) : CsvMerge where
  sources := sources.map List.tail
  nextSeq := sources.map fun _ => 1
  heap := (firstItems sources).foldl BinaryHeap.push []

/-- The greatest item leaves the heap, and the next row of its source enters it. -/
def CsvMerge.next (m : CsvMerge) : Option (RawRow × CsvMerge) :=
  match m.heap with
  | [] => none
  | item :: heap =>
      match m.sources.getD item.block [] with
      | [] => some (item.row, { m with heap })
      | row :: rest =>
          let seq := m.nextSeq.getD item.block 0
          some (item.row,
            { sources := m.sources.set item.block rest
              nextSeq := m.nextSeq.set item.block (seq + 1)
              heap := BinaryHeap.push heap ⟨row.monoS, item.block, seq, row⟩ })

/-- The number of rows that are still to come. -/
def CsvMerge.left (m : CsvMerge) : Nat := m.heap.length + (m.sources.map List.length).sum

theorem BinaryHeap.push_perm (heap : BinaryHeap) (item : CsvMergeItem) :
    (heap.push item).Perm (item :: heap) := List.perm_orderedInsert _ item heap

theorem sum_length_set {sources : List (List RawRow)} {block : Nat} {row : RawRow}
    {rest : List RawRow} (hsource : sources.getD block [] = row :: rest) :
    ((sources.set block rest).map List.length).sum + 1 = (sources.map List.length).sum := by
  induction sources generalizing block with
  | nil => cases hsource
  | cons source sources ih =>
      cases block with
      | zero =>
          obtain rfl : source = row :: rest := hsource
          simp only [List.set_cons_zero, List.map_cons, List.sum_cons, List.length_cons]
          omega
      | succ block =>
          have htail := @ih block hsource
          simp only [List.set_cons_succ, List.map_cons, List.sum_cons]
          omega

/-- Every row that comes out is one fewer to come. -/
theorem CsvMerge.left_next {m m' : CsvMerge} {row : RawRow} (hnext : m.next = some (row, m')) :
    m'.left < m.left := by
  unfold CsvMerge.next at hnext
  split at hnext
  · cases hnext
  next item heap hheap =>
    split at hnext
    · obtain ⟨-, rfl⟩ := Prod.mk.inj (Option.some.inj hnext)
      simp [left, hheap]
    next row' rest hsource =>
      obtain ⟨-, rfl⟩ := Prod.mk.inj (Option.some.inj hnext)
      have hsum := sum_length_set hsource
      have hlength := (BinaryHeap.push_perm heap
        ⟨row'.monoS, item.block, m.nextSeq.getD item.block 0, row'⟩).length_eq
      simp only [left, hheap, hlength, List.length_cons]
      omega

/-- The rows that the iterator gives until it has none. -/
def CsvMerge.rows (m : CsvMerge) : List RawRow :=
  match hnext : m.next with
  | none => []
  | some (row, m') => row :: m'.rows
termination_by m.left
decreasing_by exact CsvMerge.left_next hnext

def rawRowsIter (s : SessionData) : List RawRow := (CsvMerge.start (csvSources s)).rows

end Session

end PowerForensics
