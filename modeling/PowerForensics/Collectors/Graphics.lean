import Mathlib.Algebra.Order.Ring.Nat
import PowerForensics.Collectors.Counters

/-! # Graphics collector

Engine and memory counters are added for the instances whose names can be parsed. The inventory
of the adapters is read when the counters are first built, and stays as it is from then on.
-/

namespace PowerForensics.Collectors

/-! ## Instance names -/

inductive EngineClass where
  | render3D
  | compute
  | videoDecode
  | videoCodec
  | copy
  | other
  deriving DecidableEq

/-- The words are searched for in lower case. No letter outside the alphabet has one of theirs as
its lower case. -/
def classifyEngtype (engtype : List Char) : EngineClass :=
  let s := engtype.map Char.toLower
  if mentions ["decode", "jpeg"] s then .videoDecode
  else if mentions ["codec", "encode"] s then .videoCodec
  else if mentions ["compute"] s then .compute
  else if mentions ["copy"] s then .copy
  else if s = "3d".toList ∨ " 3d".toList <:+ s then .render3D
  else .other

structure MemKey where
  pid : UInt32
  luidLow : UInt32
  luidHigh : UInt32
  deriving DecidableEq

structure EngineKey extends MemKey where
  engineClass : EngineClass
  deriving DecidableEq

def parseU32 (radix : Nat) (cs : List Char) : Option UInt32 :=
  ((Search.parseRadix radix cs).filter (· < 2 ^ 32)).map UInt32.ofNat

/-- Every "0x" in front is left out. -/
def trimHex : List Char → List Char
  | '0' :: 'x' :: rest => trimHex rest
  | cs => cs

/-- The part of an instance name at an index. -/
def part (p : List (List Char)) (i : Nat) : List Char := p[i]?.getD []

/-- The high half of an adapter's identifier comes first. -/
def parseKey (p : List (List Char)) : Option MemKey := do
  let pid ← parseU32 10 (part p 1)
  let luidHigh ← parseU32 16 (trimHex (part p 3))
  let luidLow ← parseU32 16 (trimHex (part p 4))
  return { pid, luidLow, luidHigh }

/-- A name such as "pid_1472_luid_0x00000000_0x0000d6eb_phys_0_eng_0_engtype_3d". The type comes
last and may contain the separator. -/
def parseEngineInstance (inst : String) : Option EngineKey :=
  let p := inst.toList.splitOn '_'
  if p.length < 11 ∨ part p 0 ≠ "pid".toList ∨ part p 2 ≠ "luid".toList ∨
      part p 5 ≠ "phys".toList ∨ part p 7 ≠ "eng".toList then none
  else
    match p.findIdx? (· = "engtype".toList) with
    | none => none
    | some et =>
        if et + 1 ≥ p.length then none
        else
          (parseKey p).map fun key =>
            ⟨key, classifyEngtype (['_'].intercalate (p.drop (et + 1)))⟩

/-- A name such as "pid_1020_luid_0x00000000_0x0000c361_phys_0". -/
def parseMemInstance (inst : String) : Option MemKey :=
  let p := inst.toList.splitOn '_'
  if p.length ≠ 7 ∨ part p 0 ≠ "pid".toList ∨ part p 2 ≠ "luid".toList ∨
      part p 5 ≠ "phys".toList then none
  else parseKey p

/-! ## Counters -/

structure GpuCounters where
  engines : List (EngineKey × Nat)
  mems : List (MemKey × Nat × Nat)

def maxEngineCounters : Nat := 2000

def engineCounters (b : Build) : List (EngineKey × Nat) :=
  (b.instances "GPU Engine").foldl (fun engines inst =>
    if engines.length ≥ maxEngineCounters then engines
    else
      match parseEngineInstance inst with
      | none => engines
      | some key =>
          let h := b.add s!"\\GPU Engine({inst})\\Utilization Percentage"
          if h = 0 then engines else engines ++ [(key, h)]) []

def memCounters (b : Build) : List (MemKey × Nat × Nat) :=
  (b.instances "GPU Process Memory").filterMap fun inst =>
    match parseMemInstance inst with
    | none => none
    | some key =>
        let hd := b.add s!"\\GPU Process Memory({inst})\\Dedicated Usage"
        let hs := b.add s!"\\GPU Process Memory({inst})\\Shared Usage"
        if hd = 0 ∧ hs = 0 then none else some (key, hd, hs)

def gpuCounters : CounterKind GpuCounters where
  rebuildEvery := 40
  counters b := ⟨engineCounters b, memCounters b⟩
  empty := ⟨[], []⟩
  isEmpty c := c.engines.isEmpty && c.mems.isEmpty
  noCounters := "no GPU Engine / GPU Process Memory counters could be added"

/-! ## Collector -/

structure GpuAdapter where
  index : UInt32
  name : String
  vendorId : UInt32
  deviceId : UInt32
  dedicatedMb : UInt64
  luidLow : UInt32
  luidHigh : UInt32

structure GpuCollector where
  clocked : Clocked GpuCounters
  adapters : List GpuAdapter
  stale : Bool

structure GpuCalls extends Surroundings where
  enumerateAdapters : Except String (List GpuAdapter)

/-- The parts of a sample: the inventory, the counters that are read and whether they are those
from before a rebuild that failed. -/
structure GpuReading where
  rates : Rates GpuCounters
  adapters : List GpuAdapter
  stale : Bool

namespace GpuCollector

def new : GpuCollector := ⟨.new gpuCounters, [], false⟩

/-- The inventory is read whenever an initialization is attempted. -/
def attempts (c : Counters GpuCounters) : Bool :=
  c.pdh.isNone && c.initRetry.mayAttempt c.tick

def read (s : GpuCollector) (env : GpuCalls) : Except String GpuReading × GpuCollector :=
  let adapters :=
    if attempts s.clocked.beginRead.counters then
      match env.enumerateAdapters with
      | .ok found => found
      | .error _ => []
    else s.adapters
  let (found, clocked) := readCounters gpuCounters s.clocked env.toSurroundings
  let stale :=
    match found.rebuilt with
    | none => s.stale
    | some (.ok ()) => false
    | some (.error _) => true
  (found.rates.map fun rates => ⟨rates, adapters, stale⟩, ⟨clocked, adapters, stale⟩)

end GpuCollector

end PowerForensics.Collectors
