import Mathlib.Data.List.Dedup
import Mathlib.Data.List.Sort
import PowerForensics.System.Lookup

/-! # Device collector

The devices of five classes are enumerated every fifth read and compared with those of the
enumeration before. The reads in between return the sample again, without its changes.
-/

namespace PowerForensics.Collectors

structure UsbDevice where
  instanceId : String
  friendly : String
  started : Bool

structure DeviceGroup where
  key : String
  devices : List UsbDevice

structure UsbSample where
  groups : List DeviceGroup
  powerDevices : List String
  powerError : Option String
  changes : List String

def classKeys : List String := ["usb", "bluetooth", "camera", "audio", "hid"]

/-- A map of devices, by the entries put into it one after another. -/
abbrev DeviceMap : Type := List (String × String)

/-- What a map has that another does not have. -/
def unmatched (these those : DeviceMap) (word : String) : List String :=
  ((these.map Prod.fst).dedup.filter fun id => id ∉ those.map Prod.fst).map fun id =>
    let name := (Lookup.latest these id).getD ""
    s!"{word}: {name} [{id}]"

def diffDevices (prev cur : DeviceMap) : List String :=
  (unmatched cur prev "connected" ++ unmatched prev cur "disconnected").insertionSort (· ≤ ·)

/-- The devices of some classes, under the name of their class. -/
def deviceMap (keys : List String) (devices : String → List UsbDevice) : DeviceMap :=
  keys.flatMap fun key => (devices key).map fun d => (s!"{key}:{d.instanceId}", d.friendly)

/-- How the calls of one read go; there is no set of devices for a class whose enumeration fails. -/
structure UsbCalls where
  classDevices : String → Option (List UsbDevice)
  powerDevices : Except String (List String)

/-- A failed enumeration returns no devices. -/
def UsbCalls.enumerateClass (calls : UsbCalls) (key : String) : List UsbDevice :=
  (calls.classDevices key).getD []

structure UsbCollector where
  prev : DeviceMap
  everRead : Bool
  tick : UInt64
  cached : Option UsbSample

def enumEvery : UInt64 := 5

namespace UsbCollector

def new : UsbCollector := ⟨[], false, 0, none⟩

/-- A read that enumerates. -/
def enumerate (s : UsbCollector) (calls : UsbCalls) : UsbSample × UsbCollector :=
  let current := deviceMap classKeys calls.enumerateClass
  let sample : UsbSample :=
    { groups := classKeys.map fun key => ⟨key, calls.enumerateClass key⟩
      powerDevices :=
        match calls.powerDevices with
        | .ok devices => devices
        | .error _ => []
      powerError :=
        match calls.powerDevices with
        | .ok _ => none
        | .error e => some e
      changes := if s.everRead then diffDevices s.prev current else [] }
  (sample, { s with prev := current, everRead := true, cached := some sample })

def read (s : UsbCollector) (calls : UsbCalls) : UsbSample × UsbCollector :=
  let s := { s with tick := s.tick + 1 }
  if !s.everRead || s.tick % enumEvery = 0 then s.enumerate calls
  else
    match s.cached with
    | some cached => ({ cached with changes := [] }, s)
    | none => s.enumerate calls

end UsbCollector

end PowerForensics.Collectors
