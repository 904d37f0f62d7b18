import PowerForensics.Binary64.Basic

/-! # Telemetry primitives

Every value carries its provenance, the clocks it was taken at and its freshness. An
absent value carries the reason and the kind of its absence instead. The codes are
the ones that sessions and archives store.
-/

namespace PowerForensics

/-! ## Evidence -/

inductive Provenance where
  | measured
  | derived
  | estimated
  | unavailable
  deriving DecidableEq, Repr

def Provenance.asStr : Provenance → String
  | measured => "measured"
  | derived => "derived"
  | estimated => "estimated"
  | unavailable => "unavailable"

/-- A value with its provenance, or the reason there is none. -/
inductive Reading (α : Type) where
  | measured (x : α)
  | derived (x : α)
  | estimated (x : α)
  | unavailable (reason : String)
  deriving DecidableEq, Repr

namespace Reading

variable {α β : Type}

def provenance : Reading α → Provenance
  | measured _ => .measured
  | derived _ => .derived
  | estimated _ => .estimated
  | unavailable _ => .unavailable

def value : Reading α → Option α
  | measured x => some x
  | derived x => some x
  | estimated x => some x
  | unavailable _ => none

end Reading

/-- Milliseconds of the wall clock and of the monotonic clock. -/
structure ClockStamp where
  wallMillis : UInt64
  monoMillis : UInt64
  deriving DecidableEq, Repr, Inhabited

/-- Why a value is absent. -/
inductive UnavailKind where
  | unsupported
  | transientError
  | notSampled
  | stale
  deriving DecidableEq, Repr

namespace UnavailKind

def code : UnavailKind → UInt8
  | unsupported => 0
  | transientError => 1
  | notSampled => 2
  | stale => 3

/-- Codes that stand for no kind are neutral. -/
def fromU8 (v : UInt8) : UnavailKind :=
  if v = 0 then unsupported
  else if v = 1 then transientError
  else if v = 2 then notSampled
  else if v = 3 then stale
  else notSampled

theorem fromU8_code (k : UnavailKind) : fromU8 k.code = k := by cases k <;> rfl

end UnavailKind

/-- Freshness of a sample. -/
inductive SampleQuality where
  | fresh
  | repeatedCached
  | stale
  | error
  | unknown
  deriving DecidableEq, Repr

namespace SampleQuality

def code : SampleQuality → UInt8
  | fresh => 0
  | repeatedCached => 1
  | stale => 2
  | error => 3
  | unknown => 4

def fromU8 (v : UInt8) : SampleQuality :=
  if v = 0 then fresh
  else if v = 1 then repeatedCached
  else if v = 2 then stale
  else if v = 3 then error
  else unknown

theorem fromU8_code (q : SampleQuality) : fromU8 q.code = q := by cases q <;> rfl

end SampleQuality

/-- The quality that an absence of a given kind implies. -/
def qualityForKind : UnavailKind → SampleQuality
  | .transientError => .error
  | .stale => .stale
  | _ => .unknown

/-! ## Readings with full evidence -/

structure Telemetry (α : Type) where
  value : Reading α
  source : String
  stamp : ClockStamp
  quality : SampleQuality
  unavailKind : Option UnavailKind
  deriving DecidableEq, Repr

namespace Telemetry

variable {α : Type}

def measured (value : α) (source : String) (stamp : ClockStamp) : Telemetry α :=
  ⟨.measured value, source, stamp, .fresh, none⟩

def derived (value : α) (source : String) (stamp : ClockStamp) : Telemetry α :=
  ⟨.derived value, source, stamp, .fresh, none⟩

def unavailable (kind : UnavailKind) (reason source : String) (stamp : ClockStamp) :
    Telemetry α :=
  ⟨.unavailable reason, source, stamp, qualityForKind kind, some kind⟩

def val (t : Telemetry α) : Option α := t.value.value

instance : Inhabited (Telemetry α) :=
  ⟨⟨.unavailable "default-constructed", "", default, .unknown, some .notSampled⟩⟩

end Telemetry

/-- How a call ends short of a result: with the error it returns, or with a panic. -/
inductive Fault where
  | err (message : String)
  | panic (message : String)
  deriving DecidableEq, Repr

end PowerForensics
