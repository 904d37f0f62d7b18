import PowerForensics.Collectors.CounterLines
import PowerForensics.Collectors.DisplayLine
import PowerForensics.Collectors.GpuLine
import PowerForensics.Collectors.NetLine
import PowerForensics.Collectors.ProcLine
import PowerForensics.Core.Millis

/-! # Samples behind their lines

The line of a process, graphics or network sample is loaded as exactly one point with the
same entries in the same order, and a reading that is absent stays absent. Two things are
lost: integers of more than 53 bits are rounded, and a state without a word of its own comes
back as none. A session of a header and any such lines, and those of the processor, the displays,
the disks and the profiler, is loaded with one point for each line.
-/

namespace PowerForensics.Collectors

open Json Session

/-! ## What should come back -/

section Kept

-- what becomes of integers, and of the states that are written as words
variable (back : UInt64 → UInt64) (mediaState wifiState : UInt32 → Option Binary64)

structure ProcKept (p : ProcInfo) (e : ProcEntry) : Prop where
  pid : e.pid = p.pid
  ppid : e.ppid = p.ppid
  name : e.name = p.name
  startUnixMs : e.startUnixMs = p.startUnixMs.map back
  cpu : e.cpu.val = p.cpuPct

structure ProcsKept (sample : ProcSample) (q : ProcPoint) : Prop where
  totalThreads : q.totalThreads = some (back sample.totalThreads)
  inaccessible : q.inaccessible = some (back sample.inaccessible)
  truncated : q.truncated = some sample.truncated
  top : List.Forall₂ (ProcKept back) sample.top q.top

structure AdapterKept (v : AdapterView) (e : GpuAdapterPoint) : Prop where
  name : e.name = v.adapter.name
  discrete : e.discrete = v.discrete
  totalUtil : e.totalUtil.val = some v.stats.totalUtil
  util3d : e.util3d.val = some v.stats.util3d
  utilCompute : e.utilCompute.val = some v.stats.utilCompute
  utilDecode : e.utilDecode.val = some v.stats.utilDecode
  utilCodec : e.utilCodec.val = some v.stats.utilCodec
  utilCopy : e.utilCopy.val = some v.stats.utilCopy
  utilOther : e.utilOther.val = some v.stats.utilOther
  enginesActive : e.enginesActive.val = some (ofU64 v.stats.enginesActive)
  enginesSeen : e.enginesSeen.val = some (ofU64 v.stats.enginesSeen)
  memDedicatedMb : e.memDedicatedMb.val = some v.stats.memDedicatedMb
  memSharedMb : e.memSharedMb.val = some v.stats.memSharedMb
  topPids : (e.topPids.map fun entry => (entry.1, entry.2.val)) =
    v.stats.topPids.map fun entry => (entry.1, some entry.2)
  awake : e.awake = some ⟨v.awake.active, v.awake.confidence.text, v.awake.evidence⟩

structure GpuKept (sample : GpuSample) (q : GpuPoint) : Prop where
  stale : q.stale = sample.stale
  adapters : List.Forall₂ AdapterKept sample.adapters q.adapters

structure NetAdapterKept (a : TableAdapter) (e : NetAdapterRec) : Prop where
  aliasName : e.aliasName = a.aliasName
  descr : e.descr = a.descr
  className : e.className = a.adapterClass
  media : ∀ media, a.media = mediaName media → e.media = mediaState media

structure WifiKept (w : WifiNet) (e : WifiRec) : Prop where
  descr : e.descr = w.descr
  ssid : e.ssid = w.ssid
  state : e.state = wifiState w.state
  signalPct : e.signalPct.val = w.signalPct.map fun s => .ofNat s.toNat

structure NetKept (sample : NetSample) (q : NetPoint) : Prop where
  throughput : (q.throughput.map fun t => (t.1, t.2.1.val, t.2.2.val)) =
    sample.throughput.map fun t => (t.instanceName, t.rxBps, t.txBps)
  totalRx : q.totalRx.val = sample.totalRxBpsOpt
  totalTx : q.totalTx.val = sample.totalTxBpsOpt
  adapters : List.Forall₂ (NetAdapterKept mediaState) sample.adapters q.adapters
  wifi : List.Forall₂ (WifiKept wifiState) sample.wifi q.wifi
  topologyStale : q.topologyStale = sample.topologyStale

/-- The line is one line of JSON, and a session of a header and the line has one point, with
what is asked of it. -/
def LoadsOne {Point : Type} (line : Doc) (series : SessionData → List Point)
    (Kept : Point → Prop) : Prop :=
  '\n' ∉ line.text ∧ (∃ v, parse line.line = .ok v) ∧
    ∀ (label : String) (h : Header),
      ∃ s q, loadSession label (headed h line) = .ok s ∧ series s = [q] ∧ Kept q

/-- The lines of all three collectors are loaded as their samples. -/
def LinesLoadBack : Prop :=
  ∀ (stamp : ClockStamp) (tStartMs tEndMs : UInt64),
    (∀ sample : ProcSample, sample.Finite →
      LoadsOne (procJson sample stamp tStartMs tEndMs) SessionData.procs (ProcsKept back sample)) ∧
    (∀ sample : GpuSample, sample.Finite →
      LoadsOne (gpuJson sample stamp tStartMs tEndMs) SessionData.gpu (GpuKept sample)) ∧
    (∀ sample : NetSample, sample.Finite →
      LoadsOne (netJson sample stamp tStartMs tEndMs) SessionData.net
        (NetKept mediaState wifiState sample))

end Kept

/-! ## The three collectors -/

/-- A line that is read, of a collector whose loader adds one point. -/
theorem loadsOne_of {Point : Type} {members : List (String × Doc)} {levels : Nat}
    (hreads : (Doc.obj members).Reads levels) (hlevels : levels ≤ Parser.depthLimit + 1)
    {name : String} (hname : (Doc.obj members).value.strAt "collector" = some name)
    {load : JVal → ClockStamp → SessionData → Except Fault SessionData}
    (hcollector : collectorLoader name = some load) {series : SessionData → List Point}
    {Kept : Point → Prop} {q : Point} (hkept : Kept q)
    (hempty : ∀ (label : String) (h : Header) (wall : UInt64) (events : List EventRec),
      series ((afterHeader label h).withEvents wall events) = [])
    (hload : ∀ s : SessionData,
      ∃ s', load (Doc.obj members).value (stampOf (Doc.obj members).value) s = .ok s' ∧
        series s' = series s ++ [q]) :
    LoadsOne (Doc.obj members) series Kept := by
  refine ⟨Doc.newline_not_mem_text _, ⟨_, Doc.parse_line hreads hlevels⟩, ?_⟩
  intro label h
  have hrecord := loadRecord_collector hname hcollector (afterHeader label h)
  obtain ⟨s', hs', hseries⟩ := hload
    ((afterHeader label h).withEvents
      (firstWall (afterHeader label h).wallBaseMs (Doc.obj members).value)
      (afterHeader label h).events)
  refine ⟨s', q, ?_, ?_, hkept⟩
  · rw [loadSession_headed label h hreads hlevels, hrecord, hs']
  · rw [hseries, hempty, List.nil_append]

section Samples

variable (stamp : ClockStamp) (tStartMs tEndMs : UInt64)

theorem forall₂_map {α β : Type} {R : α → β → Prop} {f : α → β} (hR : ∀ a, R a (f a))
    (l : List α) : List.Forall₂ R l (l.map f) :=
  List.forall₂_map_right_iff.mpr (List.forall₂_same.mpr fun a _ => hR a)

theorem procKept_loaded (at_ : ClockStamp) (p : ProcInfo) :
    ProcKept readBack p (loadedProc at_ p) :=
  ⟨rfl, rfl, rfl, rfl, by rw [loadedProc, val_loadedReading, value_optReading]⟩

theorem loadsOne_procJson {sample : ProcSample} (hsample : sample.Finite) :
    LoadsOne (procJson sample stamp tStartMs tEndMs) SessionData.procs
      (ProcsKept readBack sample) := by
  refine loadsOne_of (reads_procJson hsample stamp tStartMs tEndMs) (by decide) rfl rfl ?_
    (fun _ _ _ _ => rfl) fun s => ⟨_, loadProcs_procJson sample stamp tStartMs tEndMs s _, rfl⟩
  exact ⟨rfl, rfl, rfl, forall₂_map (procKept_loaded _) _⟩

theorem adapterKept_loaded (at_ : ClockStamp) (v : AdapterView) :
    AdapterKept v (loadedAdapter at_ v) :=
  ⟨rfl, rfl, rfl, rfl, rfl, rfl, rfl, rfl, rfl, rfl, rfl, rfl, rfl,
    by rw [loadedAdapter, List.map_map]; rfl, rfl⟩

theorem loadsOne_gpuJson {sample : GpuSample} (hsample : sample.Finite) :
    LoadsOne (gpuJson sample stamp tStartMs tEndMs) SessionData.gpu (GpuKept sample) := by
  refine loadsOne_of (reads_gpuJson hsample stamp tStartMs tEndMs) (by decide) rfl rfl ?_
    (fun _ _ _ _ => rfl) fun s => ⟨_, loadGpu_gpuJson sample stamp tStartMs tEndMs s _, rfl⟩
  exact ⟨rfl, forall₂_map (adapterKept_loaded _) _⟩

theorem netAdapterKept_loaded (at_ : ClockStamp) (a : TableAdapter) :
    NetAdapterKept (loadedWord · 2) a (loadedNetAdapter at_ a) := by
  refine ⟨rfl, rfl, rfl, fun media hmedia => ?_⟩
  rw [← mediaCode_mediaName, ← hmedia]
  rfl

theorem wifiKept_loaded (at_ : ClockStamp) (w : WifiNet) :
    WifiKept (loadedWord · 7) w (loadedWifi at_ w) := by
  refine ⟨rfl, rfl, rfl, ?_⟩
  rw [loadedWifi, loadedSignal, val_loadedReading, value_optReading]

theorem loadsOne_netJson {sample : NetSample} (hsample : sample.Finite) :
    LoadsOne (netJson sample stamp tStartMs tEndMs) SessionData.net
      (NetKept (loadedWord · 2) (loadedWord · 7) sample) := by
  have hkept : ∀ (at_ : ClockStamp) (window : Window),
      NetKept (loadedWord · 2) (loadedWord · 7) sample (loadedNet sample at_ window) := by
    intro at_ window
    refine ⟨?_, ?_, ?_, forall₂_map (netAdapterKept_loaded at_) _,
      forall₂_map (wifiKept_loaded at_) _, rfl⟩
    · rw [loadedNet, List.map_map]
      refine List.map_congr_left fun t _ => ?_
      simp [loadedThroughput, loadedCounter]
    · simp [loadedNet, loadedTotal]
    · simp [loadedNet, loadedTotal]
  exact loadsOne_of (reads_netJson hsample stamp tStartMs tEndMs) (by decide) rfl rfl (hkept _ _)
    (fun _ _ _ _ => rfl) fun s => ⟨_, loadNet_netJson sample stamp tStartMs tEndMs s _, rfl⟩

end Samples

/-- Every line comes back as its sample, but for integers that are rounded and states without
a word; integers of up to 53 bits are not rounded. -/
theorem lines_load_back :
    LinesLoadBack readBack (loadedWord · 2) (loadedWord · 7) ∧
      ∀ n : UInt64, n.toNat < 2 ^ 53 → readBack n = n :=
  ⟨fun stamp tStartMs tEndMs => ⟨fun _ hsample => loadsOne_procJson stamp tStartMs tEndMs hsample,
    fun _ hsample => loadsOne_gpuJson stamp tStartMs tEndMs hsample,
    fun _ hsample => loadsOne_netJson stamp tStartMs tEndMs hsample⟩,
    fun _ hn => readBack_of_lt hn⟩

/-- A process that was measured, and one that cannot be inspected. -/
def measuredProcs : ProcSample where
  totalProcs := 2
  totalThreads := 231
  inaccessible := 1
  truncated := true
  top := [⟨4312, 4, "日本 \"x\".exe", 31, true, some 1700000000123, some 12.5, some 640000000,
      some 80.0, some 64.0, some 1024.0, some 0.0, some 4096, some 0, some 512⟩,
    ⟨4, 0, "System", 200, false, none, none, none, none, none, none, none, none, none, none⟩]

/-- An interface that receives, of which the sent bytes are not known yet. -/
def receivingNet : NetSample where
  adapters := []
  throughput := [⟨"Wi-Fi", some 2500.0, none⟩]
  wifi := [⟨[], "home", 1, "", some 84⟩]
  totalRxBpsOpt := some 2500.0
  totalTxBpsOpt := none
  changes := []
  topologyStale := true
  topologyError := none

theorem measuredProcs_finite : measuredProcs.Finite := by
  simp only [ProcSample.Finite, ProcInfo.Finite, measuredProcs]
  decide +kernel

theorem receivingNet_finite : receivingNet.Finite :=
  ⟨List.forall_mem_nil _, by decide +kernel, by decide +kernel⟩

theorem lines_load_back_measured :
    LoadsOne (procJson measuredProcs default 0 0) SessionData.procs
        (ProcsKept readBack measuredProcs) ∧
      LoadsOne (netJson receivingNet default 0 0) SessionData.net
        (NetKept (loadedWord · 2) (loadedWord · 7) receivingNet) ∧
      readBack 1700000000123 = 1700000000123 := by
  exact ⟨(lines_load_back.1 default 0 0).1 _ measuredProcs_finite,
    (lines_load_back.1 default 0 0).2.2 _ receivingNet_finite,
    lines_load_back.2 1700000000123 (by decide)⟩

/-! ## What is lost -/

/-- A line is loaded as one point only. -/
theorem LoadsOne.both {Point : Type} {line : Doc} {series : SessionData → List Point}
    {Kept Kept' : Point → Prop} (hkept : LoadsOne line series Kept)
    (hkept' : LoadsOne line series Kept') : ∃ q, Kept q ∧ Kept' q := by
  obtain ⟨s, q, hs, hq, hKept⟩ := hkept.2.2 "" ⟨0, "", 0, ""⟩
  obtain ⟨s', q', hs', hq', hKept'⟩ := hkept'.2.2 "" ⟨0, "", 0, ""⟩
  obtain rfl := Except.ok.inj (hs.symm.trans hs')
  obtain rfl := List.singleton_inj.mp (hq.symm.trans hq')
  exact ⟨q, hKept, hKept'⟩

def manyThreads : ProcSample where
  totalProcs := 0
  totalThreads := 9007199254740993
  inaccessible := 0
  truncated := false
  top := []

theorem manyThreads_rounded : readBack manyThreads.totalThreads ≠ manyThreads.totalThreads := by
  decide +kernel

theorem threads_rounded (mediaState wifiState : UInt32 → Option Binary64) :
    ¬ LinesLoadBack id mediaState wifiState := by
  intro hall
  have hfinite : manyThreads.Finite := by
    intro p hp
    cases hp
  obtain ⟨q, hkept, hloaded⟩ := ((hall default 0 0).1 _ hfinite).both
    (loadsOne_procJson default 0 0 hfinite)
  have hsame := hloaded.totalThreads.symm.trans hkept.totalThreads
  exact manyThreads_rounded (Option.some.inj hsame)

/-- A sample of one adapter that reports another state than the three with a word. -/
def unusualMedia : NetSample where
  adapters := [{
    aliasName := "", descr := "", guid := [], adapterClass := AdapterClass.other.asStr
    iftype := iftypeName 0, oper := 1, operName := operName 1, media := mediaName 3
    adminUp := true, txMbps := 0.0, rxMbps := 0.0
    inOctets := 0, outOctets := 0, words := plain_words .other 0 1 3 }]
  throughput := []
  wifi := []
  totalRxBpsOpt := none
  totalTxBpsOpt := none
  changes := []
  topologyStale := false
  topologyError := none

def unusualWifi : NetSample where
  adapters := []
  throughput := []
  wifi := [⟨[], "", 8, "", none⟩]
  totalRxBpsOpt := none
  totalTxBpsOpt := none
  changes := []
  topologyStale := false
  topologyError := none

theorem media_wordless : (some ∘ ofU32) 3 ≠ loadedWord 3 2 := by
  rw [loadedWord_of_lt (by decide)]
  exact Option.some_ne_none _

theorem wifi_wordless : (some ∘ ofU32) 8 ≠ loadedWord 8 7 := by
  rw [loadedWord_of_lt (by decide)]
  exact Option.some_ne_none _

theorem media_lost (back : UInt64 → UInt64) (wifiState : UInt32 → Option Binary64) :
    ¬ LinesLoadBack back (some ∘ ofU32) wifiState := by
  intro hall
  have hfinite : unusualMedia.Finite := by
    refine ⟨?_, ?_, ?_⟩
    · exact List.forall_mem_singleton.mpr ⟨by decide +kernel, by decide +kernel⟩
    · exact List.forall_mem_nil _
    · simp [unusualMedia]
  obtain ⟨q, hkept, hloaded⟩ := ((hall default 0 0).2.2 _ hfinite).both
    (loadsOne_netJson default 0 0 hfinite)
  obtain ⟨e, rest, hentry, -, hentries⟩ := List.forall₂_cons_left_iff.mp hkept.adapters
  obtain ⟨e', rest', hentry', -, hentries'⟩ := List.forall₂_cons_left_iff.mp hloaded.adapters
  obtain ⟨rfl, -⟩ := List.cons.inj (hentries.symm.trans hentries')
  exact media_wordless ((hentry.media 3 rfl).symm.trans (hentry'.media 3 rfl))

theorem wifi_lost (back : UInt64 → UInt64) (mediaState : UInt32 → Option Binary64) :
    ¬ LinesLoadBack back mediaState (some ∘ ofU32) := by
  intro hall
  have hfinite : unusualWifi.Finite :=
    ⟨List.forall_mem_nil _, List.forall_mem_nil _, by simp [unusualWifi]⟩
  obtain ⟨q, hkept, hloaded⟩ := ((hall default 0 0).2.2 _ hfinite).both
    (loadsOne_netJson default 0 0 hfinite)
  obtain ⟨e, rest, hentry, -, hentries⟩ := List.forall₂_cons_left_iff.mp hkept.wifi
  obtain ⟨e', rest', hentry', -, hentries'⟩ := List.forall₂_cons_left_iff.mp hloaded.wifi
  obtain ⟨rfl, -⟩ := List.cons.inj (hentries.symm.trans hentries')
  exact wifi_wordless (hentry.state.symm.trans hentry'.state)

/-- Not every integer comes back, nor every state of a medium, nor every state of a wireless
network. -/
theorem lines_lose :
    ¬ LinesLoadBack id (loadedWord · 2) (loadedWord · 7) ∧
      ¬ LinesLoadBack readBack (some ∘ ofU32) (loadedWord · 7) ∧
      ¬ LinesLoadBack readBack (loadedWord · 2) (some ∘ ofU32) ∧
      ¬ LinesLoadBack id (some ∘ ofU32) (some ∘ ofU32) :=
  ⟨threads_rounded _ _, media_lost _ _, wifi_lost _ _, threads_rounded _ _⟩

/-! ## Sessions of lines -/

/-- A sample of a collector whose line begins with the stamp and the window. -/
inductive AnySample
  | cpu (sample : CpuSample)
  | gpu (sample : GpuSample)
  | procs (sample : ProcSample)
  | display (sample : DisplaySample)
  | net (sample : NetSample)
  | storage (sample : StorageSample)
  | selfmon (sample : SelfSample)

structure SampleLine where
  sample : AnySample
  stamp : ClockStamp
  tStartMs : UInt64
  tEndMs : UInt64

/-- The series of points that a session is loaded as. -/
inductive Series
  | battery | batteryExtra | cpu | gpu | procs | display | net | storage | usb | selfmon
  deriving DecidableEq

/-- The times of the points of a series. -/
def Series.times (s : SessionData) : Series → List Binary64
  | battery => s.battery.map BatteryPoint.t
  | batteryExtra => s.batteryExtra.map BatteryExtraPoint.t
  | cpu => s.cpu.map CpuPoint.t
  | gpu => s.gpu.map GpuPoint.t
  | procs => s.procs.map ProcPoint.t
  | display => s.display.map DisplayPoint.t
  | net => s.net.map NetPoint.t
  | storage => s.storage.map StoragePoint.t
  | usb => s.usb.map UsbPoint.t
  | selfmon => s.selfmon.map SelfPoint.t

namespace SampleLine

def doc (line : SampleLine) : Doc :=
  match line.sample with
  | .cpu sample => cpuJson sample line.stamp line.tStartMs line.tEndMs
  | .gpu sample => gpuJson sample line.stamp line.tStartMs line.tEndMs
  | .procs sample => procJson sample line.stamp line.tStartMs line.tEndMs
  | .display sample => displayJson sample line.stamp line.tStartMs line.tEndMs
  | .net sample => netJson sample line.stamp line.tStartMs line.tEndMs
  | .storage sample => storageJson sample line.stamp line.tStartMs line.tEndMs
  | .selfmon sample => selfJson sample line.stamp line.tStartMs line.tEndMs

/-- All its numbers are finite, and its reasons can be kept. -/
def Writable (line : SampleLine) : Prop :=
  match line.sample with
  | .cpu sample => sample.Finite
  | .gpu sample => sample.Finite
  | .procs sample => sample.Finite
  | .display _ => True
  | .net sample => sample.Finite
  | .storage sample => sample.Finite
  | .selfmon sample => sample.Writable

/-- The series its point belongs to. -/
def series (line : SampleLine) : Series :=
  match line.sample with
  | .cpu _ => .cpu
  | .gpu _ => .gpu
  | .procs _ => .procs
  | .display _ => .display
  | .net _ => .net
  | .storage _ => .storage
  | .selfmon _ => .selfmon

/-- The time of its point; the loader divides the milliseconds by a thousand twice. -/
def time (line : SampleLine) : Binary64 :=
  seconds (asU64 (.ofNat line.stamp.monoMillis.toNat / 1000.0 * 1000.0))

end SampleLine

/-- The times of the lines of a series, in their order. -/
def pointTimes (c : Series) (lines : List SampleLine) : List Binary64 :=
  (lines.filter fun line => line.series = c).map SampleLine.time

/-- What the session file has of a header and lines. -/
def sessionText (h : Header) (lines : List SampleLine) : String :=
  String.ofList (Lines.terminated
    (lineText (headerMembers h) :: lines.map fun line => line.doc.text))

/-- One point was added, of one series. -/
def Grows (c : Series) (t : Binary64) (s s' : SessionData) : Prop :=
  ∀ c' : Series, c'.times s' = c'.times s ++ if c = c' then [t] else []

theorem Series.times_withEvents (c : Series) (s : SessionData) (wall : UInt64)
    (events : List EventRec) : c.times (s.withEvents wall events) = c.times s := by
  cases c <;> rfl

namespace SampleLine

variable (line : SampleLine)

/-- The loader of its collector adds one point to its series and none to another. -/
theorem loader_grows : ∃ name load, line.doc.value.strAt "collector" = some name ∧
    collectorLoader name = some load ∧ ∀ (v : JVal) (stamp : ClockStamp) (s : SessionData),
      Gives (Grows line.series (seconds stamp.monoMillis) s) (load v stamp s) := by
  obtain ⟨sample, at_, tStartMs, tEndMs⟩ := line
  cases sample with
  | cpu sample =>
      refine ⟨_, loadCpu, rfl, rfl, fun v stamp s => ?_⟩
      unfold loadCpu
      repeat refine Gives.bind fun _ => ?_
      exact gives_pure fun c => by cases c <;> simp [Series.times, series]
  | gpu sample =>
      refine ⟨_, loadGpu, rfl, rfl, fun v stamp s => ?_⟩
      unfold loadGpu
      exact Gives.bind fun _ => gives_pure fun c => by cases c <;> simp [Series.times, series]
  | procs sample =>
      refine ⟨_, loadProcs, rfl, rfl, fun v stamp s => ?_⟩
      unfold loadProcs
      exact Gives.bind fun _ => gives_pure fun c => by cases c <;> simp [Series.times, series]
  | display sample =>
      refine ⟨_, loadDisplay, rfl, rfl, fun v stamp s => ?_⟩
      unfold loadDisplay
      exact Gives.bind fun _ => gives_pure fun c => by cases c <;> simp [Series.times, series]
  | net sample =>
      refine ⟨_, loadNet, rfl, rfl, fun v stamp s => ?_⟩
      unfold loadNet
      repeat refine Gives.bind fun _ => ?_
      exact gives_pure fun c => by cases c <;> simp [Series.times, series]
  | storage sample =>
      refine ⟨_, loadStorage, rfl, rfl, fun v stamp s => ?_⟩
      unfold loadStorage
      repeat refine Gives.bind fun _ => ?_
      exact gives_pure fun c => by cases c <;> simp [Series.times, series]
  | selfmon sample =>
      refine ⟨_, loadSelfmon, rfl, rfl, fun v stamp s => ?_⟩
      unfold loadSelfmon
      repeat refine Gives.bind fun _ => ?_
      exact gives_pure fun c => by cases c <;> simp [Series.times, series]

theorem seconds_doc : seconds (stampOf line.doc.value).monoMillis = line.time := by
  obtain ⟨sample, at_, tStartMs, tEndMs⟩ := line
  cases sample <;> rfl

theorem loadRecord_doc (s : SessionData) :
    Gives (Grows line.series line.time s) (loadRecord line.doc.value s) := by
  obtain ⟨name, load, hname, hload, hgrows⟩ := line.loader_grows
  intro s' hs' c
  rw [loadRecord_collector hname hload] at hs'
  rw [← seconds_doc, hgrows _ _ _ s' hs' c, Series.times_withEvents]

variable {line}

theorem stored_doc (hline : line.Writable) : ∃ members levels,
    line.doc = .obj members ∧ levels ≤ Parser.depthLimit + 1 ∧ (Doc.obj members).Stored levels := by
  obtain ⟨sample, at_, tStartMs, tEndMs⟩ := line
  cases sample with
  | cpu sample => exact ⟨_, 5, rfl, by decide, stored_cpuJson at_ tStartMs tEndMs hline⟩
  | gpu sample => exact ⟨_, 7, rfl, by decide, stored_gpuJson hline at_ tStartMs tEndMs⟩
  | procs sample => exact ⟨_, 5, rfl, by decide, stored_procJson hline at_ tStartMs tEndMs⟩
  | display sample => exact ⟨_, 5, rfl, by decide, stored_displayJson sample at_ tStartMs tEndMs⟩
  | net sample => exact ⟨_, 5, rfl, by decide, stored_netJson hline at_ tStartMs tEndMs⟩
  | storage sample => exact ⟨_, 5, rfl, by decide, stored_storageJson at_ tStartMs tEndMs hline⟩
  | selfmon sample => exact ⟨_, 3, rfl, by decide, stored_selfJson at_ tStartMs tEndMs hline⟩

/-- One line behind anything that is loaded. -/
theorem loadLines_doc (hline : line.Writable) (number : Nat) (s : SessionData) :
    ∃ s', loadLines number [line.doc.text] s = .ok s' ∧ Grows line.series line.time s s' := by
  obtain ⟨members, levels, hdoc, hlevels, hstored⟩ := stored_doc hline
  have hok : (loadLines number [line.doc.text] s).isOk = true := by
    rw [loadLines_isOk, hdoc]
    exact List.forall_mem_singleton.mpr (Doc.loadable_of_stored hstored hlevels)
  cases hload : loadLines number [line.doc.text] s with
  | error fault =>
      rw [hload] at hok
      cases hok
  | ok s' =>
      refine ⟨s', rfl, ?_⟩
      rw [hdoc, Doc.loadLines_obj hstored.1 hlevels, ← hdoc] at hload
      exact line.loadRecord_doc s s' hload

end SampleLine

section Whole

variable {lines : List SampleLine}

/-- By induction on the lines; each adds its point behind those of the former lines. -/
theorem loadLines_docs (hlines : ∀ line ∈ lines, line.Writable) (number : Nat)
    (s : SessionData) :
    ∃ s', loadLines number (lines.map fun line => line.doc.text) s = .ok s' ∧
      ∀ c : Series, c.times s' = c.times s ++ pointTimes c lines := by
  induction lines generalizing number s with
  | nil => exact ⟨s, rfl, fun c => (List.append_nil _).symm⟩
  | cons line lines ih =>
      obtain ⟨hline, hlines⟩ := List.forall_mem_cons.mp hlines
      obtain ⟨s₁, hs₁, hgrows⟩ := SampleLine.loadLines_doc hline number s
      obtain ⟨s', hs', htimes⟩ := ih hlines (number + 1) s₁
      have hsplit : ((line :: lines).map fun line => line.doc.text) =
          [line.doc.text] ++ lines.map fun line => line.doc.text := rfl
      refine ⟨s', ?_, fun c => ?_⟩
      · rw [hsplit, loadLines_append, hs₁]
        exact hs'
      · rw [htimes c, hgrows c, List.append_assoc, pointTimes, pointTimes, List.filter_cons]
        by_cases hc : line.series = c
        · simp [hc]
        · simp [hc]

theorem lines_sessionText (h : Header) (hlines : ∀ line ∈ lines, line.Writable) :
    Lines.lines (sessionText h lines).toList =
      lineText (headerMembers h) :: lines.map fun line => line.doc.text := by
  have hline : ∀ line ∈ lines, '\n' ∉ line.doc.text ∧
      Lines.stripCr line.doc.text = line.doc.text := by
    intro line hmem
    obtain ⟨members, -, hdoc, -, -⟩ := SampleLine.stored_doc (hlines line hmem)
    rw [hdoc]
    exact ⟨Doc.newline_not_mem_text _, Lines.stripCr_of_trim (Doc.trim_obj members)⟩
  have hsingle : ∀ l ∈ lineText (headerMembers h) :: lines.map fun line => line.doc.text,
      '\n' ∉ l := by
    rw [List.forall_mem_cons, List.forall_mem_map]
    exact ⟨newline_not_mem_lineText _, fun line hmem => (hline line hmem).1⟩
  have hterminated := Lines.lines_terminated hsingle []
  rw [List.append_nil] at hterminated
  rw [sessionText, String.toList_ofList, hterminated, Lines.lines_nil, List.append_nil,
    List.map_cons, stripCr_lineText, List.map_map]
  exact congrArg _ (List.map_congr_left fun line hmem => (hline line hmem).2)

/-- A session of a header and any lines is loaded, and every series has one point for each line
of its collector, at the line's time and in the order of the lines. -/
theorem session_loads (label : String) (h : Header) (hlines : ∀ line ∈ lines, line.Writable) :
    ∃ s, loadSession label (sessionText h lines) = .ok s ∧
      ∀ c : Series, c.times s = pointTimes c lines := by
  obtain ⟨s, hs, htimes⟩ := loadLines_docs hlines 2 (afterHeader label h)
  have hsplit : (lineText (headerMembers h) :: lines.map fun line => line.doc.text) =
      [lineText (headerMembers h)] ++ lines.map fun line => line.doc.text := rfl
  refine ⟨s, ?_, fun c => ?_⟩
  · rw [loadSession, lines_sessionText h hlines, hsplit, loadLines_append, loadLines_header]
    exact hs
  · rw [htimes c]
    cases c <;> rfl

end Whole

/-- Of the processor only the use is known at first, then also the frequency of one core. -/
def warmingCpu : CpuSample where
  totals := [(⟨"utility", by decide⟩, some 12.5), (⟨"ctx_switches", by decide⟩, none)]
  cores := []
  energyInstance := none
  pkgPowerW := none
  pkgDerivedW := none

def warmCpu : CpuSample where
  totals := [(⟨"utility", by decide⟩, some 8.0), (⟨"ctx_switches", by decide⟩, some 9000.0)]
  cores := [⟨"0,0", some 8.0, some 110.0, some 2400.0, none⟩]
  energyInstance := some "RAPL_Package0_PKG"
  pkgPowerW := some 6.5
  pkgDerivedW := some 6.25

def mixedLines : List SampleLine :=
  [⟨.cpu warmingCpu, ⟨1700000001000, 1000⟩, 0, 1000⟩,
    ⟨.procs measuredProcs, ⟨1700000001000, 1000⟩, 0, 1000⟩,
    ⟨.net receivingNet, ⟨1700000002000, 2000⟩, 1000, 2000⟩,
    ⟨.cpu warmCpu, ⟨1700000003000, 3000⟩, 2000, 3000⟩]

theorem warmingCpu_finite : warmingCpu.Finite := by
  refine ⟨?_, List.forall_mem_nil _, ?_⟩
  · simp only [warmingCpu, Known]
    decide +kernel
  · simp [warmingCpu, Known]

theorem warmCpu_finite : warmCpu.Finite := by
  refine ⟨?_, ?_, ?_⟩
  · simp only [warmCpu, Known]
    decide +kernel
  · simp only [warmCpu, CoreSample.Finite, Known]
    decide +kernel
  · simp only [warmCpu, Known]
    decide +kernel

theorem session_loads_mixed :
    ∃ s, loadSession "day" (sessionText ⟨1700000000000, "1.0", 1000, ""⟩ mixedLines) = .ok s ∧
      Series.cpu.times s = [1.0, 3.0] ∧ Series.procs.times s = [1.0] ∧
      Series.net.times s = [2.0] ∧ Series.gpu.times s = [] := by
  have hlines : ∀ line ∈ mixedLines, line.Writable := by
    simp only [mixedLines, List.forall_mem_cons, List.not_mem_nil, false_imp_iff, implies_true,
      and_true]
    exact ⟨warmingCpu_finite, measuredProcs_finite, receivingNet_finite, warmCpu_finite⟩
  obtain ⟨s, hs, htimes⟩ := session_loads "day" ⟨1700000000000, "1.0", 1000, ""⟩ hlines
  refine ⟨s, hs, ?_, ?_, ?_, ?_⟩
  · rw [htimes]
    decide +kernel
  · rw [htimes]
    decide +kernel
  · rw [htimes]
    decide +kernel
  · rw [htimes]
    decide +kernel

end PowerForensics.Collectors
