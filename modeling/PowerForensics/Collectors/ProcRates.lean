import Mathlib.Tactic.FieldSimp
import Mathlib.Tactic.Ring
import PowerForensics.Collectors.ProcLine
import PowerForensics.Core.AnalyzeChanges
import PowerForensics.System.Responses

/-! # Process collector: rates

The rates of a process are computed from what was remembered of it at the poll before. One record
has the processor time and the transferred bytes of a poll, also if the bytes could not be read:
then it has zeros for them, and the next rate counts everything from the start of the process.
-/

namespace PowerForensics.Collectors

open Stats Analyze Responses

/-! ## Calls -/

/-- An entry of the snapshot. -/
structure ProcessEntry where
  pid : UInt32
  ppid : UInt32
  threads : UInt32
  exe : List UInt16

/-- The times of a process, in units of 100 ns. -/
structure ProcTimes where
  creation : UInt64
  kernel : UInt64
  user : UInt64

structure IoCounters where
  readBytes : UInt64
  writeBytes : UInt64

/-- What the calls find: the times, unless the process cannot be opened, and its memory, bytes and
handles. -/
structure ProcCalls where
  times : Option ProcTimes
  memory : Option (UInt64 × UInt64)
  io : Option IoCounters
  handles : Option UInt32

/-! ## Collector -/

structure Prev where
  cpu100ns : UInt64
  rBytes : UInt64
  wBytes : UInt64
  monoMs : UInt64

/-- What is remembered, by process and start. There is at least one processor. -/
structure ProcCollector where
  prev : UInt32 × UInt64 → Option Prev
  ncpu : UInt32
  ncpu_pos : 0 < ncpu

/-- Numbers that stand for 64-bit integers. -/
class Counting (α : Type) extends Scalar α where
  ofU64 : UInt64 → α

instance : Counting Binary64 where
  ofU64 := Session.ofU64

instance : Counting ℚ where
  ofU64 n := n.toNat

open Counting

/-- None for implausible values. -/
def filetimeToUnixMs (t : UInt64) : Option UInt64 :=
  let epochDiff : UInt64 := 116444736000000000
  if t < epochDiff then none
  else
    let ms := (t - epochDiff) / 10000
    if 946684800000 ≤ ms ∧ ms ≤ 4102444800000 then some ms else none

/-- The name ends at the first zero. A unit that is no character is replaced. -/
def decodeExe (raw : List UInt16) : String :=
  .ofList ((raw.takeWhile (· ≠ 0)).map fun c =>
    if c.toNat.isValidChar then Char.ofNat c.toNat else '\uFFFD')

def ProcTimes.cpuTotal (t : ProcTimes) : UInt64 := saturatingAdd t.kernel t.user

section

variable {α : Type} [Counting α]

/-- The share of all processors. The product is computed in 64 bits. -/
def cpuPct (deltaCpu100ns deltaWallMs : UInt64) (ncpu : UInt32) : Option α :=
  if deltaWallMs = 0 ∨ ncpu = 0 then none
  else
    let capacity100ns := deltaWallMs * 10000 * ncpu.toUInt64
    if capacity100ns = 0 then none
    else some (ofU64 deltaCpu100ns / ofU64 capacity100ns * 100.0)

structure ProcRates (α : Type) where
  cpuPct : Option α
  ioRBps : Option α
  ioWBps : Option α

/-- The bytes of a second, if the bytes were read and time has passed. -/
def ioBps (now : Option UInt64) (before dmono : UInt64) : Option α :=
  if 0 < dmono then now.map fun n => ofU64 (saturatingSub n before) / (ofU64 dmono / 1000.0)
  else none

/-- The rates since a poll. -/
def Prev.rates (p : Prev) (ncpu : UInt32) (t : ProcTimes) (io : Option IoCounters)
    (monoMs : UInt64) : ProcRates α :=
  let dmono := saturatingSub monoMs p.monoMs
  { cpuPct := Collectors.cpuPct (saturatingSub t.cpuTotal p.cpu100ns) dmono ncpu
    ioRBps := ioBps (io.map IoCounters.readBytes) p.rBytes dmono
    ioWBps := ioBps (io.map IoCounters.writeBytes) p.wBytes dmono }

/-- What is remembered of a poll. Bytes that could not be read are zero. -/
def remembered (t : ProcTimes) (io : Option IoCounters) (monoMs : UInt64) : Prev :=
  let io := io.getD ⟨0, 0⟩
  ⟨t.cpuTotal, io.readBytes, io.writeBytes, monoMs⟩

def ProcCollector.queryRates (c : ProcCollector) (pid : UInt32) (t : ProcTimes)
    (io : Option IoCounters) (monoMs : UInt64) : ProcRates α × ProcCollector :=
  let key := (pid, t.creation)
  ((c.prev key).elim ⟨none, none, none⟩ fun p => p.rates c.ncpu t io monoMs,
    { c with prev := Function.update c.prev key (some (remembered t io monoMs)) })

end

def megabytes (bytes : UInt64) : Binary64 := ofU64 bytes / (1024.0 * 1024.0)

def ProcCollector.queryOne (c : ProcCollector) (entry : ProcessEntry) (calls : ProcCalls)
    (monoMs : UInt64) : ProcInfo × ProcCollector :=
  match calls.times with
  | none =>
      ({ pid := entry.pid
         ppid := entry.ppid
         name := decodeExe entry.exe
         threads := entry.threads
         accessible := false
         startUnixMs := none
         cpuPct := none
         cpu100nsTotal := none
         wsMb := none
         privMb := none
         ioRBps := none
         ioWBps := none
         ioRTotal := none
         ioWTotal := none
         handles := none }, c)
  | some t =>
      let (rates, next) := c.queryRates entry.pid t calls.io monoMs
      ({ pid := entry.pid
         ppid := entry.ppid
         name := decodeExe entry.exe
         threads := entry.threads
         accessible := true
         startUnixMs := filetimeToUnixMs t.creation
         cpuPct := rates.cpuPct
         cpu100nsTotal := some t.cpuTotal
         wsMb := calls.memory.map fun m => megabytes m.1
         privMb := calls.memory.map fun m => megabytes m.2
         ioRBps := rates.ioRBps
         ioWBps := rates.ioWBps
         ioRTotal := calls.io.map IoCounters.readBytes
         ioWTotal := calls.io.map IoCounters.writeBytes
         handles := calls.handles }, next)

/-! ## Polls of one process -/

/-- A poll of a process: what its counters are, and whether its bytes can be read. -/
structure Poll where
  kernel : UInt64
  user : UInt64
  readBytes : UInt64
  writeBytes : UInt64
  monoMs : UInt64
  ioOk : Bool

namespace Poll

def times (p : Poll) (start : UInt64) : ProcTimes := ⟨start, p.kernel, p.user⟩

def io (p : Poll) : Option IoCounters := if p.ioOk then some ⟨p.readBytes, p.writeBytes⟩ else none

/-- No counter goes back. -/
structure Before (q p : Poll) : Prop where
  kernel : q.kernel ≤ p.kernel
  user : q.user ≤ p.user
  readBytes : q.readBytes ≤ p.readBytes
  writeBytes : q.writeBytes ≤ p.writeBytes

/-- The milliseconds from one poll to another. -/
def elapsed (q p : Poll) : ℤ := p.monoMs.toNat - q.monoMs.toNat

def cpuTime (p : Poll) : ℚ := p.kernel.toNat + p.user.toNat

end Poll

/-- A poll of the process with an identifier and a start. -/
def pollOne (pid : UInt32) (start : UInt64) (c : ProcCollector) (p : Poll) :
    ProcRates ℚ × ProcCollector :=
  c.queryRates pid (p.times start) p.io p.monoMs

/-- The last poll at which the bytes could be read. -/
def lastIo (polls : List Poll) : Option Poll := (polls.filter Poll.ioOk).getLast?

/-- A rate of a poll, for all the time since the bytes were last read, is not more than the counter
has moved since. -/
def Honest (before : List Poll) (p : Poll) (counter : Poll → UInt64) (rate : ℚ) : Prop :=
  p.ioOk = true ∧ ∃ q, lastIo before = some q ∧
    rate * (q.elapsed p / 1000) ≤ (counter p).toNat - (counter q).toNat

section

variable (pid : UInt32) (start : UInt64) (c : ProcCollector)

/-- Every rate of transfer that a run of polls reports is honest. -/
def IoHonest (polls : List Poll) : Prop :=
  ∀ before p after, polls = before ++ p :: after →
    let rates := (pollOne pid start (stateAfter (pollOne pid start) c before) p).1
    (∀ rate ∈ rates.ioRBps, Honest before p Poll.readBytes rate) ∧
      ∀ rate ∈ rates.ioWBps, Honest before p Poll.writeBytes rate

/-- The processor time that a run of polls reports, behind a poll. -/
def reportedCpu (c : ProcCollector) : Option Poll → List Poll → ℚ
  | _, [] => 0
  | prev, p :: polls =>
      let (rates, next) := pollOne pid start c p
      let interval : ℚ := (prev.map fun q => (q.elapsed p : ℚ)).getD 0
      rates.cpuPct.elim 0 (fun pct => pct / 100 * (interval * 10000 * c.ncpu.toNat)) +
        reportedCpu next (some p) polls

end

/-- The processor time from the first poll to the last. -/
def consumedCpu (polls : List Poll) : ℚ :=
  (polls.getLast?.elim 0 Poll.cpuTime) - polls.head?.elim 0 Poll.cpuTime

/-! ## Conditions -/

/-- From zero at the poll before, a counter moves no faster than from its value when the bytes were
last read. -/
def Outpaced (q prev p : Poll) (counter : Poll → UInt64) : Prop :=
  ((counter p).toNat : ℤ) * q.elapsed p ≤
    ((counter p).toNat - (counter q).toNat : ℤ) * prev.elapsed p

/-- Bytes that are read again after a poll at which they could not be, and some time, are
outpaced. -/
def IoSafe (before : List Poll) (p : Poll) : Prop :=
  ∀ prev ∈ before.getLast?, p.ioOk = true → prev.monoMs < p.monoMs → prev.ioOk = true ∨
    ∃ q, lastIo before = some q ∧ Outpaced q prev p Poll.readBytes ∧
      Outpaced q prev p Poll.writeBytes

/-- No product and no sum overflows between two polls. -/
structure CpuFits (ncpu : UInt32) (q p : Poll) : Prop where
  capacity : (p.monoMs.toNat - q.monoMs.toNat) * 10000 * ncpu.toNat < 2 ^ 64
  before : q.kernel.toNat + q.user.toNat < 2 ^ 64
  after : p.kernel.toNat + p.user.toNat < 2 ^ 64

/-! ## What is remembered -/

section

variable {pid : UInt32} {start : UInt64} {c : ProcCollector}

/-- What is remembered of a poll. -/
def Poll.prev (p : Poll) (start : UInt64) : Prev := remembered (p.times start) p.io p.monoMs

theorem pollOne_remembers (c : ProcCollector) (p : Poll) :
    (pollOne pid start c p).2.prev (pid, start) = some (p.prev start) ∧
      (pollOne pid start c p).2.ncpu = c.ncpu :=
  ⟨Function.update_self .., rfl⟩

/-- A run remembers its last poll. -/
theorem stateAfter_remembers (hnew : c.prev (pid, start) = none) (polls : List Poll) :
    (stateAfter (pollOne pid start) c polls).prev (pid, start) =
      polls.getLast?.map fun p => p.prev start := by
  induction polls using List.reverseRecOn with
  | nil => exact hnew
  | append_singleton polls p ih =>
      rw [stateAfter, List.foldl_append, List.getLast?_concat]
      exact (pollOne_remembers _ p).1

theorem toNat_sub_le {a b : UInt64} (hle : b ≤ a) :
    ((saturatingSub a b).toNat : ℚ) = a.toNat - b.toNat := by
  rw [toNat_saturatingSub, Nat.cast_sub (UInt64.le_iff_toNat_le.mp hle)]

/-! ## Bytes -/

/-- What a poll compares a counter with. -/
def baseOf (prev : Poll) (counter : Poll → UInt64) : UInt64 :=
  if prev.ioOk then counter prev else 0

/-- The rate of a counter since the poll before. -/
theorem mem_ioBps {prev p : Poll} {counter : Poll → UInt64} {now : Option UInt64} {rate : ℚ}
    (hnow : now = if p.ioOk then some (counter p) else none)
    (hbase : baseOf prev counter ≤ counter p) :
    rate ∈ ioBps now (baseOf prev counter) (saturatingSub p.monoMs prev.monoMs) ↔
      p.ioOk = true ∧ prev.monoMs < p.monoMs ∧
        rate = ((counter p).toNat - (baseOf prev counter).toNat) / (prev.elapsed p / 1000) := by
  have hpos : 0 < saturatingSub p.monoMs prev.monoMs ↔ prev.monoMs < p.monoMs := by
    rw [UInt64.lt_iff_toNat_lt, UInt64.lt_iff_toNat_lt, toNat_saturatingSub, UInt64.toNat_zero]
    omega
  unfold ioBps
  by_cases htime : prev.monoMs < p.monoMs
  · have hdt : ((saturatingSub p.monoMs prev.monoMs).toNat : ℚ) = prev.elapsed p := by
      rw [toNat_sub_le (UInt64.le_of_lt htime), Poll.elapsed]
      push_cast
      rfl
    rw [if_pos (hpos.mpr htime), hnow]
    cases p.ioOk with
    | false => simp
    | true =>
        simp only [if_true, Option.map_some, Option.mem_def, Option.some.injEq, true_and, htime]
        have hrate : (ofU64 (saturatingSub (counter p) (baseOf prev counter)) /
            (ofU64 (saturatingSub p.monoMs prev.monoMs) / 1000.0) : ℚ) =
              ((counter p).toNat - (baseOf prev counter).toNat) / (prev.elapsed p / 1000) := by
          change (((saturatingSub (counter p) (baseOf prev counter)).toNat : ℚ) /
            ((saturatingSub p.monoMs prev.monoMs).toNat / 1000.0)) = _
          rw [toNat_sub_le hbase, hdt]
          norm_num
        rw [hrate, eq_comm]
  · rw [if_neg (mt hpos.mp htime)]
    simp [htime]

theorem lastIo_of_last {before : List Poll} {prev : Poll} (hlast : before.getLast? = some prev)
    (hprev : prev.ioOk = true) : lastIo before = some prev := by
  obtain ⟨front, rfl⟩ := List.getLast?_eq_some_iff.mp hlast
  rw [lastIo, List.filter_append, List.filter_cons_of_pos hprev, List.filter_nil,
    List.getLast?_concat]

/-- A rate since a poll at which the bytes could be read is honest, and one since another poll is so
if the counter is outpaced. -/
theorem honest_iff {before : List Poll} {prev p : Poll} {counter : Poll → UInt64}
    {now : Option UInt64} (hnow : now = if p.ioOk then some (counter p) else none)
    (hlast : before.getLast? = some prev) (hle : counter prev ≤ counter p) :
    (∀ rate ∈ ioBps now (baseOf prev counter) (saturatingSub p.monoMs prev.monoMs),
      Honest before p counter rate) ↔
      (p.ioOk = true → prev.monoMs < p.monoMs → prev.ioOk = true ∨
        ∃ q, lastIo before = some q ∧ Outpaced q prev p counter) := by
  have hbase : baseOf prev counter ≤ counter p := by
    unfold baseOf
    split
    · exact hle
    · exact UInt64.zero_le
  simp only [mem_ioBps hnow hbase, and_imp, forall_comm (α := ℚ), forall_eq]
  refine imp_congr_right fun hok => imp_congr_right fun htime => ?_
  have hpos : (0 : ℚ) < prev.elapsed p := by
    rw [UInt64.lt_iff_toNat_lt] at htime
    rw [Int.cast_pos, Poll.elapsed]
    omega
  cases hprev : prev.ioOk with
  | true =>
      refine iff_of_true ⟨hok, prev, lastIo_of_last hlast hprev, ?_⟩ (Or.inl rfl)
      rw [baseOf, if_pos hprev, div_mul_cancel₀ _ (div_pos hpos (by norm_num)).ne']
  | false =>
      simp only [Bool.false_eq_true, false_or, Honest, hok, true_and]
      refine exists_congr fun q => and_congr_right fun _ => ?_
      -- the rate counts from zero, over the time since the poll before
      have hrate : ((counter p).toNat - (baseOf prev counter).toNat : ℚ) / (prev.elapsed p / 1000) *
          (q.elapsed p / 1000) = (counter p).toNat * q.elapsed p / prev.elapsed p := by
        rw [baseOf, hprev, if_neg Bool.false_ne_true, UInt64.toNat_zero]
        field_simp
        push_cast
        ring
      rw [hrate, div_le_iff₀ hpos, Outpaced]
      exact_mod_cast Iff.rfl

/-- The rates of a poll, by the one that is remembered. -/
theorem pollOne_rates {s : ProcCollector} {last : Option Poll}
    (hs : s.prev (pid, start) = last.map fun q => q.prev start) (p : Poll) :
    (pollOne pid start s p).1 = last.elim ⟨none, none, none⟩ fun q =>
      (q.prev start).rates s.ncpu (p.times start) p.io p.monoMs := by
  have hkey : s.prev (pid, (p.times start).creation) = last.map fun q => q.prev start := hs
  rw [pollOne, ProcCollector.queryRates]
  dsimp only
  rw [hkey]
  cases last <;> rfl

theorem prev_bytes (q : Poll) : (q.prev start).rBytes = baseOf q Poll.readBytes ∧
    (q.prev start).wBytes = baseOf q Poll.writeBytes := by
  unfold Poll.prev Poll.io baseOf
  cases q.ioOk <;> exact ⟨rfl, rfl⟩

/-- A run is honest about what is transferred exactly if bytes that are read again are outpaced. -/
theorem ioHonest_iff (hnew : c.prev (pid, start) = none) {polls : List Poll}
    (hpolls : polls.IsChain Poll.Before) :
    IoHonest pid start c polls ↔
      ∀ before p after, polls = before ++ p :: after → IoSafe before p := by
  refine forall₃_congr fun before p after => forall_congr' fun hsplit => ?_
  dsimp only
  rw [pollOne_rates (stateAfter_remembers hnew before) p]
  cases hlast : before.getLast? with
  | none => simp [IoSafe, hlast]
  | some prev =>
      obtain ⟨front, rfl⟩ := List.getLast?_eq_some_iff.mp hlast
      have hle : prev.Before p := by
        rw [hsplit, List.append_assoc, List.singleton_append] at hpolls
        exact (List.isChain_cons_cons.mp hpolls.right_of_append).1
      have hread : p.io.map IoCounters.readBytes = if p.ioOk then some p.readBytes else none := by
        unfold Poll.io
        cases p.ioOk <;> rfl
      have hwrite :
          p.io.map IoCounters.writeBytes = if p.ioOk then some p.writeBytes else none := by
        unfold Poll.io
        cases p.ioOk <;> rfl
      have hr := honest_iff hread hlast hle.readBytes
      have hw := honest_iff hwrite hlast hle.writeBytes
      rw [← (@prev_bytes start prev).1] at hr
      rw [← (@prev_bytes start prev).2] at hw
      refine (and_congr hr hw).trans ?_
      simp only [IoSafe, hlast, Option.mem_def, Option.some.injEq, forall_eq']
      constructor
      · rintro ⟨hsafe, hsafe'⟩ hok htime
        rcases hsafe hok htime with hprev | ⟨q, hq, hout⟩
        · exact Or.inl hprev
        rcases hsafe' hok htime with hprev | ⟨q', hq', hout'⟩
        · exact Or.inl hprev
        obtain rfl := Option.some.inj (hq.symm.trans hq')
        exact Or.inr ⟨q, hq, hout, hout'⟩
      · intro hsafe
        constructor
        · exact fun hok htime => (hsafe hok htime).imp_right fun ⟨q, hq, hout, _⟩ => ⟨q, hq, hout⟩
        · exact fun hok htime => (hsafe hok htime).imp_right fun ⟨q, hq, _, hout⟩ => ⟨q, hq, hout⟩

/-! ## Processor time -/

theorem toNat_cpuTotal {p : Poll} (hfits : p.kernel.toNat + p.user.toNat < 2 ^ 64) :
    (p.times start).cpuTotal.toNat = p.kernel.toNat + p.user.toNat := by
  rw [ProcTimes.cpuTotal, toNat_saturatingAdd]
  change min (p.kernel.toNat + p.user.toNat) (2 ^ 64 - 1) = _
  omega

/-- The processor time between two polls. -/
theorem cpuTotal_since {q p : Poll} (hle : q.Before p)
    (hq : q.kernel.toNat + q.user.toNat < 2 ^ 64) (hp : p.kernel.toNat + p.user.toNat < 2 ^ 64) :
    ((saturatingSub (p.times start).cpuTotal (q.times start).cpuTotal).toNat : ℚ) =
      p.cpuTime - q.cpuTime := by
  have hkernel := UInt64.le_iff_toNat_le.mp hle.kernel
  have huser := UInt64.le_iff_toNat_le.mp hle.user
  rw [toNat_sub_le, toNat_cpuTotal hp, toNat_cpuTotal hq, Nat.cast_add, Nat.cast_add, Poll.cpuTime,
    Poll.cpuTime]
  rw [UInt64.le_iff_toNat_le, toNat_cpuTotal hp, toNat_cpuTotal hq]
  omega

/-- The share of a poll, for the time since the poll before and all processors, is the processor
time since then, if time has passed. -/
theorem cpu_share {ncpu : UInt32} (hncpu : 0 < ncpu) {q p : Poll} (hle : q.Before p)
    (hfits : CpuFits ncpu q p) :
    ((q.prev start).rates ncpu (p.times start) p.io p.monoMs).cpuPct.elim (0 : ℚ)
      (fun pct => pct / 100 * ((q.elapsed p : ℚ) * 10000 * ncpu.toNat)) =
      if q.monoMs < p.monoMs then p.cpuTime - q.cpuTime else 0 := by
  have hdmono : (saturatingSub p.monoMs q.monoMs).toNat = p.monoMs.toNat - q.monoMs.toNat :=
    toNat_saturatingSub _ _
  have hcpus : 0 < ncpu.toNat := UInt32.lt_iff_toNat_lt.mp hncpu
  change (Collectors.cpuPct (saturatingSub (p.times start).cpuTotal (q.times start).cpuTotal)
    (saturatingSub p.monoMs q.monoMs) ncpu).elim (0 : ℚ) _ = _
  unfold Collectors.cpuPct
  by_cases htime : q.monoMs < p.monoMs
  · rw [UInt64.lt_iff_toNat_lt] at htime
    -- the products fit 64 bits, so nothing wraps
    have hcapacity : (saturatingSub p.monoMs q.monoMs * 10000 * ncpu.toUInt64).toNat =
        (p.monoMs.toNat - q.monoMs.toNat) * 10000 * ncpu.toNat := by
      have hfirst := hfits.capacity
      have hle : (p.monoMs.toNat - q.monoMs.toNat) * 10000 ≤
          (p.monoMs.toNat - q.monoMs.toNat) * 10000 * ncpu.toNat := Nat.le_mul_of_pos_right _ hcpus
      rw [UInt64.toNat_mul, UInt64.toNat_mul, hdmono, UInt32.toNat_toUInt64]
      change (p.monoMs.toNat - q.monoMs.toNat) * 10000 % 2 ^ 64 * ncpu.toNat % 2 ^ 64 = _
      rw [Nat.mod_eq_of_lt (hle.trans_lt hfirst), Nat.mod_eq_of_lt hfirst]
    have hpos : 0 < (p.monoMs.toNat - q.monoMs.toNat) * 10000 * ncpu.toNat :=
      Nat.mul_pos (Nat.mul_pos (Nat.sub_pos_of_lt htime) (by norm_num)) hcpus
    have hsome : ¬ (saturatingSub p.monoMs q.monoMs = 0 ∨ ncpu = 0) := by
      rw [← UInt64.toNat_inj, hdmono, UInt64.toNat_zero, ← UInt32.toNat_inj, UInt32.toNat_zero]
      omega
    have hnonzero : saturatingSub p.monoMs q.monoMs * 10000 * ncpu.toUInt64 ≠ 0 := by
      rw [Ne, ← UInt64.toNat_inj, hcapacity, UInt64.toNat_zero]
      exact hpos.ne'
    have helapsed : (q.elapsed p : ℚ) * 10000 * ncpu.toNat =
        (((p.monoMs.toNat - q.monoMs.toNat) * 10000 * ncpu.toNat : ℕ) : ℚ) := by
      rw [Poll.elapsed, Nat.cast_mul, Nat.cast_mul, Nat.cast_sub htime.le]
      push_cast
      rfl
    rw [if_neg hsome, if_neg hnonzero, Option.elim_some, if_pos (UInt64.lt_iff_toNat_lt.mpr htime),
      helapsed, ← @cpuTotal_since start q p hle hfits.before hfits.after]
    change ((saturatingSub (p.times start).cpuTotal (q.times start).cpuTotal).toNat : ℚ) /
      ((saturatingSub p.monoMs q.monoMs * 10000 * ncpu.toUInt64).toNat : ℚ) * 100.0 / 100 * _ = _
    have hwhole : ∀ a b : ℚ, b ≠ 0 → a / b * 100.0 / 100 * b = a := by
      intro a b hb
      norm_num
      exact div_mul_cancel₀ a hb
    rw [hcapacity]
    exact hwhole _ _ (Nat.cast_ne_zero.mpr hpos.ne')
  · rw [if_neg htime, if_pos]
    · rfl
    · refine Or.inl ?_
      rw [UInt64.lt_iff_toNat_lt] at htime
      rw [← UInt64.toNat_inj, hdmono, UInt64.toNat_zero]
      omega

theorem reportedCpu_cons (c : ProcCollector) (last : Option Poll) (p : Poll) (polls : List Poll) :
    reportedCpu pid start c last (p :: polls) =
      (pollOne pid start c p).1.cpuPct.elim 0 (fun pct =>
        pct / 100 * ((last.map fun q => (q.elapsed p : ℚ)).getD 0 * 10000 * c.ncpu.toNat)) +
        reportedCpu pid start (pollOne pid start c p).2 (some p) polls := rfl

/-- Behind a poll, what is reported is at most what is consumed, and all of it if time passes. -/
theorem reportedCpu_behind {polls : List Poll} {q : Poll} {c : ProcCollector}
    (hc : c.prev (pid, start) = some (q.prev start)) (hle : (q :: polls).IsChain Poll.Before)
    (hfits : (q :: polls).IsChain (CpuFits c.ncpu)) :
    reportedCpu pid start c (some q) polls ≤ (polls.getLastD q).cpuTime - q.cpuTime ∧
      ((q :: polls).IsChain (fun q p => q.monoMs < p.monoMs) →
        reportedCpu pid start c (some q) polls = (polls.getLastD q).cpuTime - q.cpuTime) := by
  induction polls generalizing q c with
  | nil => simp [reportedCpu]
  | cons p polls ih =>
      obtain ⟨hlep, hle⟩ := List.isChain_cons_cons.mp hle
      obtain ⟨hfitsp, hfits⟩ := List.isChain_cons_cons.mp hfits
      obtain ⟨hremembers, hncpu⟩ := @pollOne_remembers pid start c p
      obtain ⟨hatmost, hall⟩ := ih hremembers hle (hncpu ▸ hfits)
      have hstep : reportedCpu pid start c (some q) (p :: polls) =
          (if q.monoMs < p.monoMs then p.cpuTime - q.cpuTime else 0) +
            reportedCpu pid start (pollOne pid start c p).2 (some p) polls := by
        have hrates : (pollOne pid start c p).1 =
            (q.prev start).rates c.ncpu (p.times start) p.io p.monoMs :=
          @pollOne_rates pid start c (some q) hc p
        rw [reportedCpu_cons, ← @cpu_share start c.ncpu c.ncpu_pos q p hlep hfitsp, hrates]
        rfl
      -- the times of a poll cancel out between its own share and the next
      rw [hstep, List.getLastD_cons]
      constructor
      · have hkernel := UInt64.le_iff_toNat_le.mp hlep.kernel
        have huser := UInt64.le_iff_toNat_le.mp hlep.user
        have hgrows : q.cpuTime ≤ p.cpuTime := by
          unfold Poll.cpuTime
          exact_mod_cast Nat.add_le_add hkernel huser
        split <;> linarith
      · intro htimes
        obtain ⟨htime, htimes⟩ := List.isChain_cons_cons.mp htimes
        rw [if_pos htime, hall htimes]
        ring

/-- What is reported over a run is at most what is consumed, and all of it if time passes. -/
theorem reportedCpu_bounds (hnew : c.prev (pid, start) = none) {polls : List Poll}
    (hle : polls.IsChain Poll.Before) (hfits : polls.IsChain (CpuFits c.ncpu)) :
    reportedCpu pid start c none polls ≤ consumedCpu polls ∧
      (polls.IsChain (fun q p => q.monoMs < p.monoMs) →
        reportedCpu pid start c none polls = consumedCpu polls) := by
  cases polls with
  | nil => simp [reportedCpu, consumedCpu]
  | cons p polls =>
      obtain ⟨hremembers, hncpu⟩ := @pollOne_remembers pid start c p
      have hfirst : reportedCpu pid start c none (p :: polls) =
          reportedCpu pid start (pollOne pid start c p).2 (some p) polls := by
        have hrates : (pollOne pid start c p).1 = ⟨none, none, none⟩ :=
          @pollOne_rates pid start c none hnew p
        rw [reportedCpu_cons, hrates]
        exact zero_add _
      have hconsumed : consumedCpu (p :: polls) = (polls.getLastD p).cpuTime - p.cpuTime := by
        rw [consumedCpu, List.getLast?_cons, ← List.getLastD_eq_getLast?]
        rfl
      rw [hfirst, hconsumed]
      exact reportedCpu_behind hremembers hle (hncpu ▸ hfits)

end

/-- For every run of polls of a process whose counters do not go back: its rates of transfer are
honest exactly if bytes that are read again after a failure are outpaced, and as long as nothing
overflows, its processor time is reported at most once, and all of it if time passes. -/
theorem proc_rates_iff {pid : UInt32} {start : UInt64} {c : ProcCollector}
    (hnew : c.prev (pid, start) = none) {polls : List Poll} (hpolls : polls.IsChain Poll.Before) :
    (IoHonest pid start c polls ↔
      ∀ before p after, polls = before ++ p :: after → IoSafe before p) ∧
      (polls.IsChain (CpuFits c.ncpu) →
        reportedCpu pid start c none polls ≤ consumedCpu polls ∧
          (polls.IsChain (fun q p => q.monoMs < p.monoMs) →
            reportedCpu pid start c none polls = consumedCpu polls)) :=
  ⟨ioHonest_iff hnew hpolls, reportedCpu_bounds hnew hpolls⟩

/-- A collector that remembers nothing. -/
def freshCollector : ProcCollector := ⟨fun _ => none, 4, by decide⟩

/-- The bytes can be read, then not, and then again; nothing is transferred. -/
def unreadOnce : List Poll :=
  [⟨100, 0, 1000, 0, 1000, true⟩, ⟨200, 0, 1000, 0, 2000, false⟩, ⟨300, 0, 1000, 0, 3000, true⟩]

theorem unreadOnce_before : unreadOnce.IsChain Poll.Before := by
  refine List.isChain_cons_cons.mpr ⟨⟨?_, ?_, ?_, ?_⟩, List.isChain_cons_cons.mpr
    ⟨⟨?_, ?_, ?_, ?_⟩, List.isChain_singleton _⟩⟩ <;> decide

theorem proc_rates_iff_unreadOnce :
    reportedCpu 7 1 freshCollector none unreadOnce = consumedCpu unreadOnce := by
  have hfits : unreadOnce.IsChain (CpuFits freshCollector.ncpu) := by
    refine List.isChain_cons_cons.mpr ⟨⟨?_, ?_, ?_⟩, List.isChain_cons_cons.mpr
      ⟨⟨?_, ?_, ?_⟩, List.isChain_singleton _⟩⟩ <;> decide
  refine ((@proc_rates_iff 7 1 freshCollector rfl unreadOnce unreadOnce_before).2 hfits).2 ?_
  refine List.isChain_cons_cons.mpr ⟨?_, List.isChain_cons_cons.mpr
    ⟨?_, List.isChain_singleton _⟩⟩ <;> decide

/-- A thousand bytes a second are reported, and none were transferred. -/
theorem transfer_invented :
    ¬ ∀ pid start (c : ProcCollector), c.prev (pid, start) = none → ∀ polls : List Poll,
      polls.IsChain Poll.Before → IoHonest pid start c polls := by
  intro h
  have hhonest := h 7 1 freshCollector rfl unreadOnce unreadOnce_before
  rw [ioHonest_iff rfl unreadOnce_before] at hhonest
  have hsafe := hhonest [⟨100, 0, 1000, 0, 1000, true⟩, ⟨200, 0, 1000, 0, 2000, false⟩]
    ⟨300, 0, 1000, 0, 3000, true⟩ [] rfl
  rcases hsafe _ rfl rfl (by decide) with hread | ⟨q, hq, hout, -⟩
  · cases hread
  · obtain rfl := Option.some.inj hq
    revert hout
    unfold Outpaced Poll.elapsed
    decide

end PowerForensics.Collectors
