import PowerForensics.Agent.Boost
import PowerForensics.Agent.Histogram
import PowerForensics.Agent.Monitor
import PowerForensics.Agent.Store
import PowerForensics.Agent.Throughput
import PowerForensics.Agent.WriterLoop
import PowerForensics.Collectors.Storage
import PowerForensics.System.Runs
import PowerForensics.System.Shedding
import PowerForensics.System.Tables

/-! # The summary of a session

The messages of all workers come through one channel, in whatever order the workers send them. The
writer keeps no sample. It moves counts, sums, histograms and a list of bounded length, and the
footer is printed from these. After every run they are what a pass over the samples of each
collector gives: the samples of one collector never reach the figures of another, and what was
dropped in a pause reaches none.
-/

namespace PowerForensics.Monitor

open Stats Collectors Neighbours

/-! ## The accumulators -/

/-- Count, sum and greatest of a series of times. -/
structure TimeStats where
  count : Nat
  sum : Binary64
  max : Binary64

instance : Inhabited TimeStats := ⟨⟨0, 0.0, 0.0⟩⟩

namespace TimeStats

def push (ts : TimeStats) (v : Binary64) : TimeStats :=
  ⟨ts.count + 1, ts.sum + v, if v > ts.max then v else ts.max⟩

end TimeStats

structure RecentBattery where
  monoSecs : Binary64
  dischargeW : Option Binary64

/-- The most battery samples that are kept. -/
def recentBatteryCap : Nat := 4096

/-- The entries of the tables are in the order in which their collectors came. -/
structure SummaryAccum where
  discharge : FixedHistogram Binary64
  cpuUtil : FixedHistogram Binary64
  pkgW : FixedHistogram Binary64
  recent : List RecentBattery
  energy : EnergyStream Binary64
  chargeN : Nat
  collectMs : List (String × TimeStats)
  counts : List (String × Nat)
  late : List (String × TimeStats)
  maxGap : Binary64
  maxSkew : Binary64

namespace SummaryAccum

def new (baseInterval : UInt64) : SummaryAccum where
  discharge := .new 0.0 300.0 3000
  cpuUtil := .new 0.0 100.0 1000
  pkgW := .new 0.0 200.0 2000
  recent := []
  energy := default
  chargeN := 0
  collectMs := []
  counts := []
  late := []
  maxGap := energyMaxGapSecs baseInterval.toNat
  maxSkew := Store.maxClockSkewSecs

def recordTime (s : SummaryAccum) (name : String) (collectMs : Binary64) : SummaryAccum :=
  { s with
    collectMs := Tables.upsert name (fun ts => (ts.getD default).push collectMs) s.collectMs
    counts := Tables.upsert name (fun n => n.getD 0 + 1) s.counts }

def recordLate (s : SummaryAccum) (name : String) (lateMs : Binary64) : SummaryAccum :=
  { s with late := Tables.upsert name (fun ts => (ts.getD default).push lateMs) s.late }

def recordBattery (s : SummaryAccum) (b : Sample Binary64) : SummaryAccum :=
  { s with
    energy := s.energy.push b.mono b.wall b.discharge b.charge s.maxGap s.maxSkew
    discharge := b.discharge.elim s.discharge s.discharge.push
    chargeN := if b.charge.isSome then s.chargeN + 1 else s.chargeN
    recent := Shedding.enter recentBatteryCap s.recent ⟨b.mono, b.discharge⟩ }

def recordCpu (s : SummaryAccum) (utility : Binary64) : SummaryAccum :=
  { s with cpuUtil := s.cpuUtil.push utility }

def recordPkg (s : SummaryAccum) (w : Binary64) : SummaryAccum := { s with pkgW := s.pkgW.push w }

/-- The last discharge readings and the gaps between them, newest last. -/
def recentDischarges (s : SummaryAccum) (n : Nat) : List (Option Binary64) :=
  (Shedding.newest n s.recent).map RecentBattery.dischargeW

end SummaryAccum

/-- Add a reading to a sum and a count unless it is before a cutoff. -/
def sumSince (cutoff : Binary64) (acc : Binary64 × Nat) (s : RecentBattery) : Binary64 × Nat :=
  if s.monoSecs ≥ cutoff then s.dischargeW.elim acc fun w => (acc.1 + w, acc.2 + 1) else acc

/-- The mean of the readings that are not before a cutoff. -/
def meanSince (cutoff : Binary64) (samples : List RecentBattery) : Option Binary64 :=
  let total := samples.foldl (sumSince cutoff) (0.0, 0)
  if total.2 = 0 then none else some (total.1 / .ofNat total.2)

def SummaryAccum.windowMeanDischarge (s : SummaryAccum) (now windowSecs : Binary64) :
    Option Binary64 := meanSince (now - windowSecs) s.recent

/-! ## Messages -/

/-- The collectors whose samples only make lines. -/
def plainCollectors : List String := ["gpu", "proc", "display", "net", "usb", "os", "elevated"]

/-- What a worker sends, by its collector. Of a sample that only makes a line it is kept whether it
does: a failed read and a helper that is still running make none. -/
inductive Payload where
  | battery (res : Except String BatteryRaw)
  | cpu (res : Except String CpuSample)
  | storage (res : Except String StorageSample)
  | selfMon (res : Except String SelfSample)
  | plain (name : { c : String // c ∈ plainCollectors }) (line : Bool)

namespace Payload

def collector : Payload → String
  | battery _ => "battery"
  | cpu _ => "cpu"
  | storage _ => "storage"
  | selfMon _ => "self"
  | plain name _ => name.val

/-- Whether the handler writes the line of a sample. -/
def hasLine : Payload → Bool
  | battery res => res.isOk
  | cpu res => res.isOk
  | storage res => res.isOk
  | selfMon res => res.isOk
  | plain _ line => line

end Payload

/-- A message as the writer takes it: whether it is paused then, and whether a line that the
handler writes gets into the session. -/
structure Delivery where
  payload : Payload
  stamp : ClockStamp
  collectMs : Binary64
  paused : Bool
  written : Bool

namespace Delivery

def collector (d : Delivery) : String := d.payload.collector

def isBattery (d : Delivery) : Bool :=
  match d.payload with
  | .battery _ => true
  | _ => false

/-- The handler cannot write its line, which ends the session without a footer. -/
def fails (d : Delivery) : Bool := !d.paused && d.payload.hasLine && !d.written

end Delivery

/-! ## The writer -/

/-- What the writer keeps for the footer, for the live view and for the cadence of the battery. -/
structure MonitorState where
  summary : SummaryAccum
  disk : DiskThroughput Binary64
  boost : BoostState
  /-- The events of the activity watch, and the watch. -/
  watch : List String × ActivityWatch
  expected : String → Option UInt64
  lastCpuCtx : Option Binary64
  lastSelfCtx : Option Binary64
  nBattery : Nat
  /-- The discharge readings that are served over the pipe. -/
  liveRecent : List (Option Binary64)

namespace MonitorState

def start (cfg : Config) : MonitorState where
  summary := .new cfg.baseInterval
  disk := default
  boost := .start cfg.baseInterval
  watch := ([], .new 5.0 10)
  expected _ := none
  lastCpuCtx := none
  lastSelfCtx := none
  nBattery := 0
  liveRecent := []

/-- A battery sample, in seconds of both clocks. -/
def batterySample (stamp : ClockStamp) (raw : BatteryRaw) : Sample Binary64 :=
  ⟨Session.seconds stamp.monoMillis, Session.seconds stamp.wallMillis, raw.dischargeW.value,
    raw.chargeW.value⟩

def handleBattery (st : MonitorState) (res : Except String BatteryRaw) (stamp : ClockStamp) :
    MonitorState :=
  let st := { st with nBattery := st.nBattery + 1 }
  match res with
  | .ok raw =>
      let summary := st.summary.recordBattery (batterySample stamp raw)
      { st with
        summary := summary
        liveRecent := summary.recentDischarges 30
        boost := st.boost.handleBattery (.battery (.ok raw) true) }
  | .error _ => st

def handleCpu (st : MonitorState) : Except String CpuSample → MonitorState
  | .ok s =>
      let summary := (s.total "utility").elim st.summary st.summary.recordCpu
      { st with
        lastCpuCtx := s.total "ctx_switches"
        summary := s.pkgDerivedW.elim summary summary.recordPkg }
  | .error _ => st

def handleStorage (st : MonitorState) (res : Except String StorageSample) (stamp : ClockStamp) :
    MonitorState :=
  match res with
  | .ok ss =>
      { st with
        watch := ActivityWatch.observe st.watch ss
        disk := st.disk.handleStorage st.summary.maxGap (.ok (storageReading stamp ss)) }
  | .error _ => st

/-- The switches that the processor had last are those that the profiler is shown with. -/
def handleSelfmon (st : MonitorState) : Except String SelfSample → MonitorState
  | .ok _ => { st with lastSelfCtx := st.lastCpuCtx }
  | .error _ => st

def handle (st : MonitorState) (d : Delivery) : MonitorState :=
  match d.payload with
  | .battery res => st.handleBattery res d.stamp
  | .cpu res => st.handleCpu res
  | .storage res => st.handleStorage res d.stamp
  | .selfMon res => st.handleSelfmon res
  | .plain _ _ => st

def expect (st : MonitorState) (d : Delivery) : MonitorState :=
  { st with expected := Function.update st.expected d.collector (some d.stamp.monoMillis) }

/-- By how much an arrival exceeds its cadence, if it does so by more than the tolerance. -/
def lateness (iv last now : UInt64) : Option Binary64 :=
  let gap : UInt64 := .ofNat (now.toNat - last.toNat)
  if gap > iv + 150 then some (Session.ofU64 (gap - iv)) else none

/-- The gap to the arrival before, for a collector with a cadence. -/
def noteLate (cfg : Config) (st : MonitorState) (d : Delivery) : MonitorState :=
  match cfg.schedIv d.collector with
  | none => st
  | some iv =>
      let late := (st.expected d.collector).bind fun last => lateness iv last d.stamp.monoMillis
      { st with summary := late.elim st.summary (st.summary.recordLate d.collector) }.expect d

def record (cfg : Config) (st : MonitorState) (d : Delivery) : MonitorState :=
  let st := { st with summary := st.summary.recordTime d.collector d.collectMs }
  (st.noteLate cfg d).handle d

/-- A sample that comes in a pause only keeps the expected arrival current. -/
def take (cfg : Config) (st : MonitorState) (d : Delivery) : MonitorState :=
  if d.paused then st.expect d else st.record cfg d

def receive (cfg : Config) (st : MonitorState) (d : Delivery) : Option MonitorState :=
  if d.fails then none else some (st.take cfg d)

/-- The messages up to the end of the loop; there is no footer after a line that failed. -/
def run (cfg : Config) (deliveries : List Delivery) : Option MonitorState :=
  Runs.run (receive cfg) (start cfg) deliveries

end MonitorState

/-! ## The samples of each collector -/

/-- The messages of one collector. -/
def own (c : String) (ds : List Delivery) : List Delivery := ds.filter fun d => d.collector = c

/-- The messages that no pause dropped. -/
def recorded (ds : List Delivery) : List Delivery := ds.filter fun d => !d.paused

namespace Delivery

/-- What a message shows of the battery, if it is recorded and the battery was read. -/
def batteryRead (d : Delivery) : Option (Sample Binary64 × BatteryRaw) :=
  if d.paused then none
  else
    match d.payload with
    | .battery (.ok raw) => some (MonitorState.batterySample d.stamp raw, raw)
    | _ => none

def cpuRead (d : Delivery) : Option CpuSample :=
  if d.paused then none
  else
    match d.payload with
    | .cpu (.ok s) => some s
    | _ => none

def storageRead (d : Delivery) : Option (StorageReading Binary64 × StorageSample) :=
  if d.paused then none
  else
    match d.payload with
    | .storage (.ok ss) => some (storageReading d.stamp ss, ss)
    | _ => none

def selfRead (d : Delivery) : Option SelfSample :=
  if d.paused then none
  else
    match d.payload with
    | .selfMon (.ok s) => some s
    | _ => none

/-- The lateness of a message that is recorded, behind another one of its collector. -/
def lateAfter (iv : UInt64) (step : Delivery × Delivery) : Option Binary64 :=
  if step.2.paused then none
  else MonitorState.lateness iv step.1.stamp.monoMillis step.2.stamp.monoMillis

end Delivery

/-- The battery samples of a run. -/
def batterySamples (ds : List Delivery) : List (Sample Binary64) :=
  (ds.filterMap Delivery.batteryRead).map Prod.fst

/-- The late arrivals of a collector with a cadence, by how much they are late. -/
def latenesses (cfg : Config) (c : String) (ds : List Delivery) : List Binary64 :=
  (cfg.schedIv c).elim [] fun iv => (neighbours (own c ds)).filterMap (Delivery.lateAfter iv)

namespace TimeStats

/-- The statistics of a series. -/
def ofSeries (vs : List Binary64) : TimeStats :=
  ⟨vs.length, vs.foldl (· + ·) 0.0, vs.foldl (fun m v => if v > m then v else m) 0.0⟩

theorem ofSeries_concat (vs : List Binary64) (v : Binary64) :
    ofSeries (vs ++ [v]) = (ofSeries vs).push v := by
  rw [ofSeries, List.length_append, List.foldl_append, List.foldl_append]
  rfl

/-- A collector has an entry once its series has begun. -/
def entry (vs : List Binary64) : Option TimeStats :=
  if vs.isEmpty then none else some (ofSeries vs)

theorem entry_concat (vs : List Binary64) (v : Binary64) :
    entry (vs ++ [v]) = some (((entry vs).getD default).push v) := by
  have hne : (vs ++ [v]).isEmpty = false := by simp
  rw [entry, hne, if_neg Bool.false_ne_true, ofSeries_concat, entry]
  cases vs with
  | nil => rfl
  | cons w vs => rfl

end TimeStats

/-! ## The figures -/

/-- The summary holds the figures of the samples of each collector. -/
structure Summarises (cfg : Config) (ds : List Delivery) (st : MonitorState) : Prop where
  counts : ∀ c, st.summary.counts.lookup c =
    if (recorded (own c ds)).isEmpty then none else some (recorded (own c ds)).length
  collectMs : ∀ c, st.summary.collectMs.lookup c =
    TimeStats.entry ((recorded (own c ds)).map Delivery.collectMs)
  late : ∀ c, st.summary.late.lookup c = TimeStats.entry (latenesses cfg c ds)
  nBattery : st.nBattery = (recorded (own "battery" ds)).length
  /-- Each energy is what the batch integrator makes of the samples. -/
  dischargeEnergy : st.summary.energy.discharge =
    integrateSegmentedClocks ((batterySamples ds).map Sample.mono)
      ((batterySamples ds).map Sample.wall) ((batterySamples ds).map Sample.discharge)
      (energyMaxGapSecs cfg.baseInterval.toNat) Store.maxClockSkewSecs
  chargeEnergy : st.summary.energy.charge =
    integrateSegmentedClocks ((batterySamples ds).map Sample.mono)
      ((batterySamples ds).map Sample.wall) ((batterySamples ds).map Sample.charge)
      (energyMaxGapSecs cfg.baseInterval.toNat) Store.maxClockSkewSecs
  kinds : ∀ kind : DiscontinuityKind, st.summary.energy.discKinds[kind.index]? =
    some (((discontinuities ((batterySamples ds).map Sample.mono)
      ((batterySamples ds).map Sample.wall) (energyMaxGapSecs cfg.baseInterval.toNat)
      Store.maxClockSkewSecs).map Discontinuity.kind).count kind)
  chargeN : st.summary.chargeN = (batterySamples ds).countP fun b => b.charge.isSome
  discharge : st.summary.discharge =
    .run 0.0 300.0 3000 ((batterySamples ds).filterMap Sample.discharge)
  cpuUtil : st.summary.cpuUtil =
    .run 0.0 100.0 1000 ((ds.filterMap Delivery.cpuRead).filterMap fun s => s.total "utility")
  pkgW : st.summary.pkgW =
    .run 0.0 200.0 2000 ((ds.filterMap Delivery.cpuRead).filterMap CpuSample.pkgDerivedW)
  recent : st.summary.recent = Shedding.newest recentBatteryCap
    ((batterySamples ds).map fun b => ⟨b.mono, b.discharge⟩)
  liveRecent : st.liveRecent = Shedding.newest 30 ((batterySamples ds).map Sample.discharge)
  boost : st.boost = .run cfg.baseInterval
    ((ds.filterMap Delivery.batteryRead).map fun b => .battery (.ok b.2) true)
  disk : st.disk = .run (energyMaxGapSecs cfg.baseInterval.toNat)
    ((ds.filterMap Delivery.storageRead).map fun s => .ok s.1)
  watch : st.watch = ActivityWatch.run (.new 5.0 10)
    ((ds.filterMap Delivery.storageRead).map Prod.snd)
  /-- The profiler is shown with the last switches of the processor before its last sample. -/
  selfCtx : ∀ front d back, ds = front ++ d :: back → d.selfRead.isSome →
    (∀ x ∈ back, x.selfRead = none) →
    st.lastSelfCtx = (front.filterMap Delivery.cpuRead).getLast?.bind (·.total "ctx_switches")
  noSelf : (∀ d ∈ ds, d.selfRead = none) → st.lastSelfCtx = none

/-! ## One message -/

namespace MonitorState

variable {cfg : Config} {st : MonitorState} {d : Delivery}

/-- The lateness of a message touches no other figure. -/
theorem noteLate_eq (cfg : Config) (st : MonitorState) (d : Delivery) :
    ∃ late expected, st.noteLate cfg d =
      { st with summary := { st.summary with late := late }, expected := expected } := by
  unfold noteLate
  split
  · exact ⟨st.summary.late, st.expected, rfl⟩
  · next iv _ =>
    dsimp only
    cases (st.expected d.collector).bind fun last => lateness iv last d.stamp.monoMillis with
    | none => exact ⟨st.summary.late, _, rfl⟩
    | some v => exact ⟨_, _, rfl⟩

/-- The state after a message, as far as it follows from what the message shows. What is counted for
every collector is left as it is. -/
def shown (st : MonitorState) (d : Delivery) : MonitorState where
  summary :=
    { d.batteryRead.elim st.summary fun b => st.summary.recordBattery b.1 with
      cpuUtil := (d.cpuRead.bind fun s => s.total "utility").elim st.summary.cpuUtil
        st.summary.cpuUtil.push
      pkgW := (d.cpuRead.bind CpuSample.pkgDerivedW).elim st.summary.pkgW st.summary.pkgW.push }
  disk := d.storageRead.elim st.disk fun s => st.disk.handleStorage st.summary.maxGap (.ok s.1)
  boost := d.batteryRead.elim st.boost fun b => st.boost.handleBattery (.battery (.ok b.2) true)
  watch := d.storageRead.elim st.watch fun s => ActivityWatch.observe st.watch s.2
  expected := st.expected
  lastCpuCtx := d.cpuRead.elim st.lastCpuCtx fun s => s.total "ctx_switches"
  lastSelfCtx := d.selfRead.elim st.lastSelfCtx fun _ => st.lastCpuCtx
  nBattery := if !d.paused && d.isBattery then st.nBattery + 1 else st.nBattery
  liveRecent := d.batteryRead.elim st.liveRecent fun b =>
    (Shedding.newest 30 (Shedding.enter recentBatteryCap st.summary.recent
      ⟨b.1.mono, b.1.discharge⟩)).map RecentBattery.dischargeW

theorem recentDischarges_recordBattery (s : SummaryAccum) (b : Sample Binary64) (n : Nat) :
    (s.recordBattery b).recentDischarges n = (Shedding.newest n (Shedding.enter recentBatteryCap
      s.recent ⟨b.mono, b.discharge⟩)).map RecentBattery.dischargeW := by
  rw [SummaryAccum.recentDischarges, SummaryAccum.recordBattery]

theorem handleBattery_ok (raw : BatteryRaw) (stamp : ClockStamp) :
    st.handleBattery (.ok raw) stamp =
      { st with
        summary := st.summary.recordBattery (batterySample stamp raw)
        boost := st.boost.handleBattery (.battery (.ok raw) true)
        nBattery := st.nBattery + 1
        liveRecent := (st.summary.recordBattery (batterySample stamp raw)).recentDischarges 30 } :=
  rfl

/-- Handling a message of a recording does what the message shows. -/
theorem handle_eq (hrecorded : d.paused = false) : st.handle d = st.shown d := by
  unfold handle shown Delivery.batteryRead Delivery.cpuRead Delivery.storageRead Delivery.selfRead
    Delivery.isBattery
  simp only [hrecorded]
  cases d.payload with
  | battery res =>
      cases res with
      | error e => simp [handleBattery]
      | ok raw =>
          simp only [handleBattery_ok, recentDischarges_recordBattery, if_neg Bool.false_ne_true,
            Option.elim_some, Option.elim_none, Option.bind_none, Bool.not_false, Bool.and_self,
            if_true]
          rfl
  | cpu res =>
      cases res with
      | error e => rfl
      | ok s =>
          dsimp only [handleCpu]
          cases hutility : s.total "utility" <;> cases hpkg : s.pkgDerivedW <;>
            simp [hutility, hpkg, SummaryAccum.recordCpu, SummaryAccum.recordPkg]
  | storage res => cases res <;> rfl
  | selfMon res => cases res <;> rfl
  | plain name line => rfl

/-- A message moves what it shows, and beyond that only what is counted for every collector. -/
theorem take_eq (cfg : Config) (st : MonitorState) (d : Delivery) :
    ∃ collectMs counts late expected, st.take cfg d =
      { st.shown d with
        summary := { (st.shown d).summary with
          collectMs := collectMs, counts := counts, late := late }
        expected := expected } := by
  cases hpaused : d.paused with
  | true =>
      have hbattery : d.batteryRead = none := by rw [Delivery.batteryRead, hpaused, if_pos rfl]
      have hcpu : d.cpuRead = none := by rw [Delivery.cpuRead, hpaused, if_pos rfl]
      have hstorage : d.storageRead = none := by rw [Delivery.storageRead, hpaused, if_pos rfl]
      have hself : d.selfRead = none := by rw [Delivery.selfRead, hpaused, if_pos rfl]
      refine ⟨st.summary.collectMs, st.summary.counts, st.summary.late,
        Function.update st.expected d.collector (some d.stamp.monoMillis), ?_⟩
      rw [take, hpaused, if_pos rfl, expect, shown, hbattery, hcpu, hstorage, hself, hpaused]
      rfl
  | false =>
      obtain ⟨late, expected, hlate⟩ :=
        noteLate_eq cfg { st with summary := st.summary.recordTime d.collector d.collectMs } d
      rw [take, hpaused, if_neg Bool.false_ne_true, record, hlate, handle_eq hpaused]
      refine ⟨(st.summary.recordTime d.collector d.collectMs).collectMs,
        (st.summary.recordTime d.collector d.collectMs).counts, late, expected, ?_⟩
      unfold shown
      cases d.batteryRead <;> rfl

theorem handle_keeps (st : MonitorState) (hrecorded : d.paused = false) :
    (st.handle d).summary.collectMs = st.summary.collectMs ∧
      (st.handle d).summary.counts = st.summary.counts ∧
      (st.handle d).summary.late = st.summary.late ∧ (st.handle d).expected = st.expected := by
  rw [handle_eq hrecorded, shown]
  cases d.batteryRead <;> exact ⟨rfl, rfl, rfl, rfl⟩

/-- The lateness of a message for a collector, given the arrival before. -/
def lateNow (iv : UInt64) (last : Option UInt64) (d : Delivery) : Option Binary64 :=
  if d.paused then none else last.bind fun last => lateness iv last d.stamp.monoMillis

/-- What is counted for every collector when a message is recorded. -/
theorem record_keeps (cfg : Config) (st : MonitorState) (hrecorded : d.paused = false) :
    let st₁ := { st with summary := st.summary.recordTime d.collector d.collectMs }
    (st.take cfg d).summary.collectMs = st₁.summary.collectMs ∧
      (st.take cfg d).summary.counts = st₁.summary.counts ∧
      (st.take cfg d).summary.late = (st₁.noteLate cfg d).summary.late ∧
      (st.take cfg d).expected = (st₁.noteLate cfg d).expected := by
  intro st₁
  obtain ⟨late, expected, hlate⟩ := noteLate_eq cfg st₁ d
  obtain ⟨hcollectMs, hcounts, hkept, hexpected⟩ :=
    handle_keeps (st₁.noteLate cfg d) hrecorded
  have htake : st.take cfg d = (st₁.noteLate cfg d).handle d := by
    rw [take, hrecorded, if_neg Bool.false_ne_true, record]
  rw [htake]
  refine ⟨?_, ?_, hkept, hexpected⟩
  · rw [hcollectMs, hlate]
  · rw [hcounts, hlate]

/-- A recorded message is counted for its collector, and its time is. -/
theorem times_take (cfg : Config) (st : MonitorState) (d : Delivery) :
    (st.take cfg d).summary.collectMs =
        (Option.guard (fun d => !d.paused) d).elim st.summary.collectMs (fun d =>
          Tables.upsert d.collector (fun ts => (ts.getD default).push d.collectMs)
            st.summary.collectMs) ∧
      (st.take cfg d).summary.counts =
        (Option.guard (fun d => !d.paused) d).elim st.summary.counts fun d =>
          Tables.upsert d.collector (fun n => n.getD 0 + 1) st.summary.counts := by
  cases hpaused : d.paused with
  | true =>
      rw [take, hpaused, if_pos rfl, Option.guard, hpaused]
      exact ⟨rfl, rfl⟩
  | false =>
      obtain ⟨hcollectMs, hcounts, _, _⟩ := record_keeps cfg st hpaused
      rw [hcollectMs, hcounts, Option.guard, hpaused]
      exact ⟨rfl, rfl⟩

/-- A message of another collector. -/
theorem late_take_of_ne (cfg : Config) (st : MonitorState) {c : String} (hne : d.collector ≠ c) :
    (st.take cfg d).expected c = st.expected c ∧
      (st.take cfg d).summary.late.lookup c = st.summary.late.lookup c := by
  have hne' : c ≠ d.collector := Ne.symm hne
  cases hpaused : d.paused with
  | true =>
      rw [take, hpaused, if_pos rfl, expect]
      exact ⟨Function.update_of_ne hne' _ _, rfl⟩
  | false =>
      obtain ⟨_, _, hlate, hexpected⟩ := record_keeps cfg st hpaused
      rw [hexpected, hlate, noteLate]
      split
      · exact ⟨rfl, rfl⟩
      · refine ⟨Function.update_of_ne hne' _ _, ?_⟩
        dsimp only [expect]
        cases (st.expected d.collector).bind fun last => lateness _ last d.stamp.monoMillis with
        | none => rfl
        | some v =>
            rw [Option.elim_some, SummaryAccum.recordLate, Tables.lookup_upsert, if_neg hne']
            rfl

/-- A message of a collector with a cadence is measured against the arrival before, recorded or
not, and is the arrival that the next one is measured against. -/
theorem late_take (cfg : Config) (st : MonitorState) (d : Delivery) {c : String} {iv : UInt64}
    (hiv : cfg.schedIv c = some iv) :
    ((st.take cfg d).expected c, (st.take cfg d).summary.late.lookup c) =
      (Option.guard (fun d => d.collector = c) d).elim (st.expected c, st.summary.late.lookup c)
        fun d => (some d.stamp.monoMillis,
          (lateNow iv (st.expected c) d).elim (st.summary.late.lookup c) fun v =>
            some (((st.summary.late.lookup c).getD default).push v)) := by
  by_cases hown : d.collector = c
  · rw [Option.guard, if_pos (by simpa using hown), Option.elim_some, lateNow]
    subst hown
    cases hpaused : d.paused with
    | true =>
        rw [take, hpaused, if_pos rfl]
        dsimp only [expect]
        rw [Function.update_self]
        rfl
    | false =>
        obtain ⟨_, _, hlate, hexpected⟩ := record_keeps cfg st hpaused
        rw [hexpected, hlate, noteLate, hiv, if_neg Bool.false_ne_true]
        dsimp only [expect]
        rw [Function.update_self]
        cases (st.expected d.collector).bind fun last => lateness iv last d.stamp.monoMillis with
        | none => rfl
        | some v =>
            rw [Option.elim_some, Option.elim_some, SummaryAccum.recordLate, Tables.lookup_upsert,
              if_pos rfl]
            rfl
  · obtain ⟨hexpected, hlate⟩ := late_take_of_ne cfg st hown
    rw [Option.guard, if_neg (by simpa using hown), hexpected, hlate, Option.elim_none]

/-- A collector without a cadence is never late. -/
theorem late_take_of_none (st : MonitorState) (d : Delivery) {c : String}
    (hiv : cfg.schedIv c = none) :
    (st.take cfg d).summary.late.lookup c = st.summary.late.lookup c := by
  by_cases hown : d.collector = c
  · subst hown
    cases hpaused : d.paused with
    | true =>
        rw [take, hpaused, if_pos rfl]
        rfl
    | false =>
        rw [(record_keeps cfg st hpaused).2.2.1, noteLate, hiv]
        rfl
  · exact (late_take_of_ne cfg st hown).2

/-- What does not depend on what is counted for every collector moves by what is shown. -/
theorem component_take {C : Type} (component : MonitorState → C)
    (hcomponent : ∀ (st : MonitorState) collectMs counts late expected,
      component { st with
        summary := { st.summary with collectMs := collectMs, counts := counts, late := late }
        expected := expected } = component st)
    (cfg : Config) (st : MonitorState) (d : Delivery) :
    component (st.take cfg d) = component (st.shown d) := by
  obtain ⟨collectMs, counts, late, expected, heq⟩ := take_eq cfg st d
  rw [heq]
  exact hcomponent (st.shown d) collectMs counts late expected

/-- The thresholds of an energy accumulator never move. -/
structure Tuned (cfg : Config) (st : MonitorState) : Prop where
  maxGap : st.summary.maxGap = energyMaxGapSecs cfg.baseInterval.toNat
  maxSkew : st.summary.maxSkew = Store.maxClockSkewSecs

theorem tuned_start (cfg : Config) : (start cfg).Tuned cfg := by
  constructor
  · rw [start, SummaryAccum.new]
  · rw [start, SummaryAccum.new]

theorem Tuned.take (h : st.Tuned cfg) (d : Delivery) : (st.take cfg d).Tuned cfg := by
  have hgap := component_take (fun st => st.summary.maxGap) (fun _ _ _ _ _ => rfl) cfg st d
  have hskew := component_take (fun st => st.summary.maxSkew) (fun _ _ _ _ _ => rfl) cfg st d
  constructor
  · rw [hgap, ← h.maxGap, shown]
    cases d.batteryRead <;> rfl
  · rw [hskew, ← h.maxSkew, shown]
    cases d.batteryRead <;> rfl

end MonitorState

/-! ## Runs -/

section Runs

variable {cfg : Config}

/-- The state after some messages, as long as every line is written. -/
def summed (cfg : Config) (ds : List Delivery) : MonitorState :=
  ds.foldl (MonitorState.take cfg) (.start cfg)

theorem run_eq (cfg : Config) (ds : List Delivery) :
    MonitorState.run cfg ds = if ds.any Delivery.fails then none else some (summed cfg ds) := by
  have hgeneral : ∀ st : MonitorState, Runs.run (MonitorState.receive cfg) st ds =
      if ds.any Delivery.fails then none else some (ds.foldl (MonitorState.take cfg) st) := by
    induction ds with
    | nil => exact fun _ => rfl
    | cons d ds ih =>
        intro st
        rw [Runs.run_cons, MonitorState.receive, List.any_cons]
        cases hfails : d.fails with
        | true => rfl
        | false =>
            rw [if_neg Bool.false_ne_true, Option.bind_some, ih, Bool.false_or]
            rfl
  exact hgeneral (.start cfg)

/-- A component that moves by a view of each message is what the views of a run make of it. -/
theorem component_summed (cfg : Config) {C Shown : Type} (component : MonitorState → C)
    (view : Delivery → Option Shown) (move : C → Shown → C)
    (hcomponent : ∀ (st : MonitorState) collectMs counts late expected,
      component { st with
        summary := { st.summary with collectMs := collectMs, counts := counts, late := late }
        expected := expected } = component st)
    (hshown : ∀ (st : MonitorState) d, st.Tuned cfg →
      component (st.shown d) = (view d).elim (component st) (move (component st)))
    (ds : List Delivery) :
    component (summed cfg ds) = (ds.filterMap view).foldl move (component (.start cfg)) := by
  refine Views.foldl_view (MonitorState.Tuned cfg) component view move
    (fun _ d hst => hst.take d) ?_ (MonitorState.tuned_start cfg) ds
  intro st d hst
  rw [MonitorState.component_take component hcomponent]
  exact hshown st d hst

theorem filterMap_batteryRead (ds : List Delivery) :
    (ds.filterMap fun d => d.batteryRead.map Prod.fst) = batterySamples ds :=
  (List.map_filterMap ..).symm

theorem energy_summed (cfg : Config) (ds : List Delivery) : (summed cfg ds).summary.energy =
    .run (energyMaxGapSecs cfg.baseInterval.toNat) Store.maxClockSkewSecs (batterySamples ds) := by
  have hrun := component_summed cfg (fun st => st.summary.energy)
    (fun d => d.batteryRead.map Prod.fst)
    (fun e b => e.push b.mono b.wall b.discharge b.charge
      (energyMaxGapSecs cfg.baseInterval.toNat) Store.maxClockSkewSecs)
    (fun _ _ _ _ _ => rfl) ?_ ds
  · rw [hrun, filterMap_batteryRead]
    rfl
  · intro st d hst
    rw [MonitorState.shown, ← hst.maxGap, ← hst.maxSkew]
    cases d.batteryRead <;> rfl

theorem discharge_summed (ds : List Delivery) : (summed cfg ds).summary.discharge =
    .run 0.0 300.0 3000 ((batterySamples ds).filterMap Sample.discharge) := by
  have hrun := component_summed cfg (fun st => st.summary.discharge)
    (fun d => (d.batteryRead.map Prod.fst).bind Sample.discharge) FixedHistogram.push
    (fun _ _ _ _ _ => rfl) ?_ ds
  · rw [hrun, ← filterMap_batteryRead, List.filterMap_filterMap]
    rfl
  · intro st d _
    rw [MonitorState.shown]
    cases d.batteryRead with
    | none => rfl
    | some b => cases hwatts : b.1.discharge <;> simp [SummaryAccum.recordBattery, hwatts]

theorem cpuUtil_summed (ds : List Delivery) : (summed cfg ds).summary.cpuUtil =
    .run 0.0 100.0 1000 ((ds.filterMap Delivery.cpuRead).filterMap fun s => s.total "utility") := by
  have hrun := component_summed cfg (fun st => st.summary.cpuUtil)
    (fun d => d.cpuRead.bind fun s => s.total "utility") FixedHistogram.push
    (fun _ _ _ _ _ => rfl) (fun _ _ _ => rfl) ds
  rw [hrun, List.filterMap_filterMap]
  rfl

theorem pkgW_summed (ds : List Delivery) : (summed cfg ds).summary.pkgW =
    .run 0.0 200.0 2000 ((ds.filterMap Delivery.cpuRead).filterMap CpuSample.pkgDerivedW) := by
  have hrun := component_summed cfg (fun st => st.summary.pkgW)
    (fun d => d.cpuRead.bind CpuSample.pkgDerivedW) FixedHistogram.push
    (fun _ _ _ _ _ => rfl) (fun _ _ _ => rfl) ds
  rw [hrun, List.filterMap_filterMap]
  rfl

theorem foldl_countP {α : Type} (p : α → Bool) (l : List α) (n : Nat) :
    l.foldl (fun n a => if p a then n + 1 else n) n = n + l.countP p := by
  induction l generalizing n with
  | nil => rfl
  | cons a l ih =>
      rw [List.foldl_cons, ih, List.countP_cons]
      split <;> omega

theorem chargeN_summed (ds : List Delivery) : (summed cfg ds).summary.chargeN =
    (batterySamples ds).countP fun b => b.charge.isSome := by
  have hrun := component_summed cfg (fun st => st.summary.chargeN)
    (fun d => d.batteryRead.map Prod.fst) (fun n b => if b.charge.isSome then n + 1 else n)
    (fun _ _ _ _ _ => rfl) ?_ ds
  · rw [hrun, filterMap_batteryRead, foldl_countP]
    exact Nat.zero_add _
  · intro st d _
    rw [MonitorState.shown]
    cases d.batteryRead <;> rfl

/-- The list of recent samples and what is served of it, after any samples. -/
theorem foldl_recent (samples : List (Sample Binary64)) :
    samples.foldl (fun (p : List RecentBattery × List (Option Binary64)) b =>
      let recent := Shedding.enter recentBatteryCap p.1 ⟨b.mono, b.discharge⟩
      (recent, (Shedding.newest 30 recent).map RecentBattery.dischargeW)) ([], []) =
    (Shedding.newest recentBatteryCap (samples.map fun b => ⟨b.mono, b.discharge⟩),
      Shedding.newest 30 (samples.map Sample.discharge)) := by
  induction samples using List.reverseRecOn with
  | nil => rfl
  | append_singleton samples b ih =>
      have hcap : 0 < recentBatteryCap := by decide
      have hthirty : 30 ≤ recentBatteryCap := by decide
      rw [List.foldl_append, ih, List.foldl_cons, List.foldl_nil]
      dsimp only
      rw [Shedding.enter_newest hcap, Shedding.newest_newest hthirty, ← Shedding.newest_map,
        List.map_append, List.map_append, List.map_append, List.map_map]
      rfl

theorem recent_summed (ds : List Delivery) :
    ((summed cfg ds).summary.recent, (summed cfg ds).liveRecent) =
      (Shedding.newest recentBatteryCap ((batterySamples ds).map fun b => ⟨b.mono, b.discharge⟩),
        Shedding.newest 30 ((batterySamples ds).map Sample.discharge)) := by
  have hrun := component_summed cfg (fun st => (st.summary.recent, st.liveRecent))
    (fun d => d.batteryRead.map Prod.fst)
    (fun p b =>
      let recent := Shedding.enter recentBatteryCap p.1 ⟨b.mono, b.discharge⟩
      (recent, (Shedding.newest 30 recent).map RecentBattery.dischargeW))
    (fun _ _ _ _ _ => rfl) ?_ ds
  · rw [hrun, filterMap_batteryRead]
    exact foldl_recent (batterySamples ds)
  · intro st d _
    rw [MonitorState.shown]
    cases d.batteryRead <;> rfl

theorem boost_summed (ds : List Delivery) : (summed cfg ds).boost = .run cfg.baseInterval
    ((ds.filterMap Delivery.batteryRead).map fun b => .battery (.ok b.2) true) := by
  have hrun := component_summed cfg (fun st => st.boost) Delivery.batteryRead
    (fun boost b => boost.handleBattery (.battery (.ok b.2) true)) (fun _ _ _ _ _ => rfl)
    (fun _ _ _ => rfl) ds
  rw [hrun, BoostState.run, List.foldl_map]
  rfl

theorem disk_summed (ds : List Delivery) :
    (summed cfg ds).disk = .run (energyMaxGapSecs cfg.baseInterval.toNat)
      ((ds.filterMap Delivery.storageRead).map fun s => .ok s.1) := by
  have hrun := component_summed cfg (fun st => st.disk) Delivery.storageRead
    (fun disk s => disk.handleStorage (energyMaxGapSecs cfg.baseInterval.toNat) (.ok s.1))
    (fun _ _ _ _ _ => rfl) (fun st d hst => by rw [MonitorState.shown, ← hst.maxGap]) ds
  rw [hrun, DiskThroughput.run, List.foldl_map]
  rfl

theorem watch_summed (ds : List Delivery) : (summed cfg ds).watch =
    ActivityWatch.run (.new 5.0 10) ((ds.filterMap Delivery.storageRead).map Prod.snd) := by
  have hrun := component_summed cfg (fun st => st.watch) Delivery.storageRead
    (fun watch s => ActivityWatch.observe watch s.2) (fun _ _ _ _ _ => rfl) (fun _ _ _ => rfl) ds
  rw [hrun, ActivityWatch.run, List.foldl_map]
  rfl

theorem collector_eq_battery (d : Delivery) : d.collector = "battery" ↔ d.isBattery = true := by
  unfold Delivery.collector Delivery.isBattery
  cases d.payload with
  | plain name line =>
      have hname : name.val ≠ "battery" := fun heq => absurd (heq ▸ name.property) (by decide)
      simpa [Payload.collector] using hname
  | _ => simp [Payload.collector]

theorem nBattery_summed (ds : List Delivery) :
    (summed cfg ds).nBattery = (recorded (own "battery" ds)).length := by
  have hrun := component_summed cfg (fun st => st.nBattery)
    (Option.guard fun d => !d.paused && d.isBattery) (fun n _ => n + 1)
    (fun _ _ _ _ _ => rfl) ?_ ds
  · rw [hrun, List.filterMap_eq_filter, recorded, own, List.filter_filter]
    have hcount := foldl_countP (fun _ => true) (ds.filter fun d => !d.paused && d.isBattery) 0
    rw [List.countP_true, Nat.zero_add] at hcount
    refine hcount.trans (congrArg List.length (List.filter_congr fun d _ => ?_))
    rw [Bool.and_comm, Bool.eq_iff_iff, Bool.and_eq_true, Bool.and_eq_true, decide_eq_true_iff,
      collector_eq_battery, and_comm]
  · intro st d _
    rw [MonitorState.shown, Option.guard]
    split <;> rfl

theorem recorded_own (c : String) (ds : List Delivery) :
    ((recorded ds).filter fun d => d.collector = c) = recorded (own c ds) :=
  List.filter_comm ..

theorem foldl_entry (ds : List Delivery) :
    ds.foldl (fun entry d => some ((entry.getD default).push d.collectMs)) none =
      TimeStats.entry (ds.map Delivery.collectMs) := by
  induction ds using List.reverseRecOn with
  | nil => rfl
  | append_singleton ds d ih =>
      rw [List.foldl_append, ih, List.map_append, List.map_singleton, TimeStats.entry_concat]
      rfl

theorem foldl_count (ds : List Delivery) :
    ds.foldl (fun (entry : Option Nat) _ => some (entry.getD 0 + 1)) none =
      if ds.isEmpty then none else some ds.length := by
  induction ds using List.reverseRecOn with
  | nil => rfl
  | append_singleton ds d ih =>
      have hne : (ds ++ [d]).isEmpty = false := by simp
      rw [List.foldl_append, ih, hne, if_neg Bool.false_ne_true, List.length_append]
      cases ds <;> rfl

theorem collectMs_summed (ds : List Delivery) (c : String) :
    (summed cfg ds).summary.collectMs.lookup c =
      TimeStats.entry ((recorded (own c ds)).map Delivery.collectMs) := by
  have hgather : (summed cfg ds).summary.collectMs = Tables.gather Delivery.collector
      (fun entry d => (entry.getD default).push d.collectMs) (recorded ds) := by
    rw [recorded, ← List.filterMap_eq_filter]
    exact Views.foldl_view (fun _ => True) (fun st => st.summary.collectMs)
      (Option.guard fun d => !d.paused)
      (fun table d => Tables.upsert d.collector (fun ts => (ts.getD default).push d.collectMs) table)
      (fun _ _ _ => trivial)
      (fun st d _ => (MonitorState.times_take cfg st d).1) trivial ds
  rw [hgather, Tables.lookup_gather, recorded_own, foldl_entry]

theorem counts_summed (ds : List Delivery) (c : String) :
    (summed cfg ds).summary.counts.lookup c =
      if (recorded (own c ds)).isEmpty then none else some (recorded (own c ds)).length := by
  have hgather : (summed cfg ds).summary.counts = Tables.gather Delivery.collector
      (fun entry _ => entry.getD 0 + 1) (recorded ds) := by
    rw [recorded, ← List.filterMap_eq_filter]
    exact Views.foldl_view (fun _ => True) (fun st => st.summary.counts)
      (Option.guard fun d => !d.paused)
      (fun table d => Tables.upsert d.collector (fun n => n.getD 0 + 1) table)
      (fun _ _ _ => trivial)
      (fun st d _ => (MonitorState.times_take cfg st d).2) trivial ds
  rw [hgather, Tables.lookup_gather, recorded_own, foldl_count]

/-- The arrivals of a collector, one after another: each but the first is measured against the one
before it. -/
theorem foldl_late (iv : UInt64) (ds : List Delivery) :
    ds.foldl (fun (p : Option UInt64 × Option TimeStats) d =>
      (some d.stamp.monoMillis, (MonitorState.lateNow iv p.1 d).elim p.2 fun v =>
        some ((p.2.getD default).push v))) (none, none) =
    (ds.getLast?.map fun d => d.stamp.monoMillis,
      TimeStats.entry ((neighbours ds).filterMap (Delivery.lateAfter iv))) := by
  induction ds using List.reverseRecOn with
  | nil => rfl
  | append_singleton ds d ih =>
      rw [List.foldl_append, ih, List.foldl_cons, List.foldl_nil, List.getLast?_concat,
        Option.map_some]
      congr 1
      rcases List.eq_nil_or_concat ds with rfl | ⟨front, last, rfl⟩
      · -- there is nothing to measure the first arrival against
        have hnone : MonitorState.lateNow iv none d = none := by
          rw [MonitorState.lateNow]
          split <;> rfl
        rw [List.getLast?_nil, Option.map_none, hnone]
        rfl
      · rw [List.concat_eq_append, neighbours_concat, List.filterMap_append, List.getLast?_concat,
          Option.map_some]
        have hlate : Delivery.lateAfter iv (last, d) =
            MonitorState.lateNow iv (some last.stamp.monoMillis) d := rfl
        cases hnow : MonitorState.lateNow iv (some last.stamp.monoMillis) d with
        | none => rw [List.filterMap_cons_none (hlate.trans hnow), List.filterMap_nil,
            List.append_nil, Option.elim_none]
        | some v => rw [List.filterMap_cons_some (hlate.trans hnow), List.filterMap_nil,
            TimeStats.entry_concat, Option.elim_some]

theorem late_summed (ds : List Delivery) (c : String) :
    (summed cfg ds).summary.late.lookup c = TimeStats.entry (latenesses cfg c ds) := by
  unfold latenesses
  cases hiv : cfg.schedIv c with
  | none =>
      have hrun := Views.foldl_view (fun _ => True) (fun st => st.summary.late.lookup c)
        (fun _ => (none : Option Unit)) (fun late _ => late) (fun _ _ _ => trivial)
        (fun st d _ => MonitorState.late_take_of_none st d hiv) (s := .start cfg) trivial ds
      rw [summed, hrun, List.filterMap_eq_nil_iff.mpr fun _ _ => rfl]
      rfl
  | some iv =>
      have hrun := Views.foldl_view (fun _ => True)
        (fun st => (st.expected c, st.summary.late.lookup c))
        (Option.guard fun d => d.collector = c)
        (fun (p : Option UInt64 × Option TimeStats) d =>
          (some d.stamp.monoMillis, (MonitorState.lateNow iv p.1 d).elim p.2 fun v =>
            some ((p.2.getD default).push v)))
        (fun _ _ _ => trivial) (fun st d _ => MonitorState.late_take cfg st d hiv)
        (s := .start cfg) trivial ds
      rw [List.filterMap_eq_filter] at hrun
      exact (Prod.mk.inj (hrun.trans (foldl_late iv (own c ds)))).2

theorem foldl_last {α β : Type} (f : α → Option β) (l : List α) :
    l.foldl (fun _ a => f a) none = l.getLast?.bind f := by
  cases List.eq_nil_or_concat l with
  | inl hnil => rw [hnil]; rfl
  | inr hconcat =>
      obtain ⟨front, last, rfl⟩ := hconcat
      rw [List.concat_eq_append, List.foldl_append, List.getLast?_concat]
      rfl

theorem lastCpuCtx_summed (ds : List Delivery) : (summed cfg ds).lastCpuCtx =
    (ds.filterMap Delivery.cpuRead).getLast?.bind (·.total "ctx_switches") := by
  have hrun := component_summed cfg (fun st => st.lastCpuCtx) Delivery.cpuRead
    (fun _ s => s.total "ctx_switches") (fun _ _ _ _ _ => rfl) (fun _ _ _ => rfl) ds
  rw [hrun]
  exact foldl_last (fun s : CpuSample => s.total "ctx_switches") _

theorem lastSelfCtx_take (st : MonitorState) (d : Delivery) :
    (st.take cfg d).lastSelfCtx = d.selfRead.elim st.lastSelfCtx fun _ => st.lastCpuCtx := by
  rw [MonitorState.component_take (fun st => st.lastSelfCtx) (fun _ _ _ _ _ => rfl),
    MonitorState.shown]

/-- Without a sample of the profiler its switches stay as they are. -/
theorem lastSelfCtx_foldl (st : MonitorState) {ds : List Delivery}
    (hnone : ∀ d ∈ ds, d.selfRead = none) :
    (ds.foldl (MonitorState.take cfg) st).lastSelfCtx = st.lastSelfCtx := by
  induction ds generalizing st with
  | nil => rfl
  | cons d ds ih =>
      obtain ⟨hd, hds⟩ := List.forall_mem_cons.mp hnone
      rw [List.foldl_cons, ih _ hds, lastSelfCtx_take, hd, Option.elim_none]

theorem selfCtx_summed {front back : List Delivery} {d : Delivery} (hself : d.selfRead.isSome)
    (hback : ∀ x ∈ back, x.selfRead = none) : (summed cfg (front ++ d :: back)).lastSelfCtx =
      (front.filterMap Delivery.cpuRead).getLast?.bind (·.total "ctx_switches") := by
  obtain ⟨s, hs⟩ := Option.isSome_iff_exists.mp hself
  rw [summed, List.foldl_append, List.foldl_cons, lastSelfCtx_foldl _ hback, lastSelfCtx_take, hs,
    Option.elim_some]
  exact lastCpuCtx_summed front

/-- After every run in which no line fails the summary holds the figures that a pass over the
recorded samples of each collector gives, whatever the order in which the workers' messages came
and whatever a pause dropped between them. -/
theorem run_summarises {cfg : Config} {ds : List Delivery} {st : MonitorState}
    (hrun : MonitorState.run cfg ds = some st) : Summarises cfg ds st := by
  obtain rfl : summed cfg ds = st := by
    rw [run_eq] at hrun
    exact Option.some.inj (Option.ite_none_left_eq_some.mp hrun).2
  have hfollows := run_follows (energyMaxGapSecs cfg.baseInterval.toNat) Store.maxClockSkewSecs
    (batterySamples ds)
  rw [← energy_summed cfg ds] at hfollows
  exact
    { counts := counts_summed ds
      collectMs := collectMs_summed ds
      late := late_summed ds
      nBattery := nBattery_summed ds
      dischargeEnergy := hfollows.discharge
      chargeEnergy := hfollows.charge
      kinds := hfollows.kinds
      chargeN := chargeN_summed ds
      discharge := discharge_summed ds
      cpuUtil := cpuUtil_summed ds
      pkgW := pkgW_summed ds
      recent := (Prod.mk.inj (recent_summed ds)).1
      liveRecent := (Prod.mk.inj (recent_summed ds)).2
      boost := boost_summed ds
      disk := disk_summed ds
      watch := watch_summed ds
      selfCtx := fun front d back heq hself hback => heq ▸ selfCtx_summed hself hback
      noSelf := fun hnone => lastSelfCtx_foldl (.start cfg) hnone }

end Runs

/-! ## A session with a pause -/

def batteryEverySecond : Config where
  active := ["battery", "self"]
  active_ne := List.cons_ne_nil _ _
  schedIv c := if c = "battery" then some 1000 else none
  startMonoMs := 0
  baseInterval := 1000
  samples := none

/-- A battery that gives a power. -/
def rawAt (rateMw : Int32) : BatteryRaw :=
  ⟨.measured false, .measured 50, true, .measured 50000, .measured 25000, .measured rateMw⟩

def batteryAt (millis : UInt64) (paused : Bool) : Delivery :=
  ⟨.battery (.ok (rawAt (-8000))), ⟨millis, millis⟩, 1.0, paused, true⟩

/-- The second sample comes in the pause, and the third one late. -/
def pausedOnce : List Delivery :=
  [batteryAt 1000 false, batteryAt 2000 true, ⟨.cpu (.error "no counters"), ⟨2500, 2500⟩, 1.0,
    false, true⟩, batteryAt 6000 false]

theorem run_summarises_pausedOnce :
    Summarises batteryEverySecond pausedOnce (summed batteryEverySecond pausedOnce) :=
  run_summarises (by rw [run_eq]; rfl)

end PowerForensics.Monitor
