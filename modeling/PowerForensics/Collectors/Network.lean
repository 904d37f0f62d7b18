import PowerForensics.Binary64.Basic
import PowerForensics.Collectors.Counters
import PowerForensics.System.Lookup

/-! # Network collector

The throughput of the interfaces is read from counters. The adapters and wireless networks are an
inventory that is read far less often, and compared with the one before: an adapter in another
state than before makes an event.
-/

namespace PowerForensics.Collectors

/-! ## Counters -/

structure InterfaceCounter where
  instanceName : String
  received : Nat
  sent : Nat

def networkCounters : CounterKind (List InterfaceCounter) where
  rebuildEvery := 60
  counters b := (b.instances "Network Interface").filterMap fun inst =>
    let hr := b.add ("\\Network Interface(" ++ inst ++ ")\\Bytes Received/sec")
    let hs := b.add ("\\Network Interface(" ++ inst ++ ")\\Bytes Sent/sec")
    if hr = 0 ∧ hs = 0 then none else some ⟨inst, hr, hs⟩
  empty := []
  isEmpty c := c.isEmpty
  noCounters := "no Network Interface counters could be added"

/-! ## Inventory -/

def operName (oper : UInt32) : String :=
  match oper.toNat with
  | 1 => "Up"
  | 2 => "Down"
  | 3 => "Testing"
  | 4 => "Unknown"
  | 5 => "Dormant"
  | 6 => "NotPresent"
  | 7 => "LowerLayerDown"
  | n => s!"oper-{n}"

structure NetAdapter where
  aliasName : String
  descr : String
  guid : List UInt8
  adapterClass : String
  iftype : String
  oper : UInt32
  operName : String
  media : String
  adminUp : Bool
  txMbps : Binary64
  rxMbps : Binary64
  inOctets : UInt64
  outOctets : UInt64

structure WifiNet where
  guid : List UInt8
  descr : String
  state : UInt32
  ssid : String
  signalPct : Option UInt8

/-- What is compared of an adapter. -/
def NetAdapter.state (a : NetAdapter) : UInt32 × String := (a.oper, a.media)

/-- The states by alias. A later adapter replaces an earlier one of its alias. -/
def adapterStates (adapters : List NetAdapter) : List (String × (UInt32 × String)) :=
  adapters.map fun a => (a.aliasName, a.state)

def transition (prev : UInt32 × String) (a : NetAdapter) : String :=
  s!"{a.aliasName} {prev.2} {Collectors.operName prev.1} -> {a.media} {a.operName}"

def netChanges (prevState : List (String × (UInt32 × String))) (adapters : List NetAdapter) :
    List String :=
  adapters.filterMap fun a =>
    match Lookup.latest prevState a.aliasName with
    | none => none
    | some prev => if prev = a.state then none else some (transition prev a)

/-! ## Collector -/

structure NetInventory where
  prevState : List (String × (UInt32 × String))
  everRead : Bool
  invTick : UInt64
  cachedAdapters : List NetAdapter
  cachedWifi : List WifiNet

structure NetCollector where
  clocked : Clocked (List InterfaceCounter)
  inventory : NetInventory
  topologyStale : Bool
  topologyError : Option String

structure NetCalls extends Surroundings where
  readTable : Except String (List NetAdapter)
  queryWifi : List WifiNet

structure NetReading where
  rates : Rates (List InterfaceCounter)
  adapters : List NetAdapter
  wifi : List WifiNet
  changes : List String
  topologyStale : Bool
  topologyError : Option String

/-- The first read queries the inventory, and every thirtieth. -/
def inventoryDue (invTick : UInt64) : Bool := invTick = 1 || invTick % 30 = 0

namespace NetInventory

def new : NetInventory := ⟨[], false, 0, [], []⟩

/-- A table that cannot be read is taken as an empty one. -/
def refresh (v : NetInventory) (calls : NetCalls) : NetInventory :=
  let v := { v with invTick := v.invTick + 1 }
  if inventoryDue v.invTick then
    { v with
      cachedAdapters :=
        match calls.readTable with
        | .ok adapters => adapters
        | .error _ => []
      cachedWifi := calls.queryWifi }
  else v

def compare (v : NetInventory) : List String × NetInventory :=
  (if v.everRead then netChanges v.prevState v.cachedAdapters else [],
    { v with prevState := adapterStates v.cachedAdapters, everRead := true })

end NetInventory

namespace NetCollector

def new : NetCollector := ⟨.new networkCounters, .new, false, none⟩

/-- Old counters are never passed off as those of the current interfaces. -/
def applyRebuild (s : NetCollector) : Option (Except String Unit) → NetCollector
  | none => s
  | some (.ok ()) => { s with topologyStale := false, topologyError := none }
  | some (.error e) => { s with topologyStale := true, topologyError := some e }

@[simp] theorem clocked_applyRebuild (s : NetCollector) (o : Option (Except String Unit)) :
    (s.applyRebuild o).clocked = s.clocked := by
  rcases o with _ | _ | _ <;> rfl

@[simp] theorem inventory_applyRebuild (s : NetCollector) (o : Option (Except String Unit)) :
    (s.applyRebuild o).inventory = s.inventory := by
  rcases o with _ | _ | _ <;> rfl

def read (s : NetCollector) (calls : NetCalls) : Except String NetReading × NetCollector :=
  let (found, clocked) := readCounters networkCounters s.clocked calls.toSurroundings
  let s := { s with clocked }.applyRebuild found.rebuilt
  match found.rates with
  | .error e => (.error e, s)
  | .ok rates =>
      let inventory := s.inventory.refresh calls
      let (changes, compared) := inventory.compare
      (.ok
        { rates
          adapters := inventory.cachedAdapters
          wifi := inventory.cachedWifi
          changes
          topologyStale := s.topologyStale
          topologyError := s.topologyError },
        { s with inventory := compared })

end NetCollector

end PowerForensics.Collectors
