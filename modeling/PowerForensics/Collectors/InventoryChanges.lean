import PowerForensics.Collectors.Display
import PowerForensics.Collectors.Network
import PowerForensics.Collectors.Usb

/-! # Changes of an inventory

What a collector should report of an inventory is what the successful queries alone show: each is
compared with the successful one before it. A collector that takes a failed query for an empty
inventory reports just that as long as nothing is remembered that the failure could lose.
-/

namespace PowerForensics.Collectors

open Responses

/-! ## Devices -/

/-- What the successful enumerations have shown of every class. -/
structure UsbKnown where
  tick : UInt64
  everRead : Bool
  devices : String → Option (List UsbDevice)

namespace UsbKnown

def new : UsbKnown := ⟨0, false, fun _ => none⟩

def due (k : UsbKnown) : Bool := !k.everRead || (k.tick + 1) % enumEvery = 0

/-- The classes with a successful enumeration now and one before. -/
def compared (k : UsbKnown) (calls : UsbCalls) : List String :=
  classKeys.filter fun key => (k.devices key).isSome && (calls.classDevices key).isSome

def latest (k : UsbKnown) (key : String) : List UsbDevice := (k.devices key).getD []

/-- The changes between successful enumerations. -/
def read (k : UsbKnown) (calls : UsbCalls) : List String × UsbKnown :=
  if k.due then
    (diffDevices (deviceMap (k.compared calls) k.latest)
        (deviceMap (k.compared calls) calls.enumerateClass),
      { tick := k.tick + 1
        everRead := true
        devices := fun key => (calls.classDevices key).or (k.devices key) })
  else ([], { k with tick := k.tick + 1 })

/-- No enumeration that fails is of a class with devices, and a class that no enumeration has
succeeded for since the first read turns out to have none. -/
def Harmless (k : UsbKnown) (calls : UsbCalls) : Prop :=
  k.due → ∀ key ∈ classKeys, (calls.classDevices key = none → k.latest key = []) ∧
    (k.everRead → k.devices key = none → calls.enumerateClass key = [])

instance (k : UsbKnown) (calls : UsbCalls) : Decidable (k.Harmless calls) :=
  inferInstanceAs (Decidable (k.due → ∀ key ∈ classKeys,
    (calls.classDevices key = none → k.latest key = []) ∧
      (k.everRead → k.devices key = none → calls.enumerateClass key = [])))

end UsbKnown

/-- A collector that remembers what the successful enumerations have shown. -/
structure UsbCollector.Remembers (s : UsbCollector) (k : UsbKnown) : Prop where
  tick : s.tick = k.tick
  everRead : s.everRead = k.everRead
  cached : s.everRead → s.cached.isSome
  prev : s.prev = deviceMap classKeys k.latest
  unread : k.everRead = false → ∀ key, k.devices key = none

theorem deviceMap_congr {keys : List String} {devices devices' : String → List UsbDevice}
    (h : ∀ key ∈ keys, devices key = devices' key) :
    deviceMap keys devices = deviceMap keys devices' := by
  unfold deviceMap
  rw [List.flatMap_def, List.flatMap_def]
  refine congrArg List.flatten (List.map_congr_left fun key hkey => ?_)
  rw [h key hkey]

/-- Classes without devices do not count. -/
theorem deviceMap_filter {keys : List String} {devices : String → List UsbDevice}
    {p : String → Bool} (h : ∀ key ∈ keys, p key = false → devices key = []) :
    deviceMap (keys.filter p) devices = deviceMap keys devices := by
  induction keys with
  | nil => rfl
  | cons key keys ih =>
      obtain ⟨hkey, hkeys⟩ := List.forall_mem_cons.1 h
      have ih := ih hkeys
      unfold deviceMap at ih ⊢
      cases hp : p key with
      | true => rw [List.filter_cons_of_pos hp, List.flatMap_cons, List.flatMap_cons, ih]
      | false =>
          rw [List.filter_cons_of_neg (by simp [hp]), ih, List.flatMap_cons, hkey hp]
          rfl

theorem diffDevices_nil : diffDevices [] [] = [] := rfl

section Harmless

variable {k : UsbKnown} {calls : UsbCalls}

/-- Where enumerations failed for now, the classes left out of the comparison have shown nothing. -/
theorem UsbKnown.compared_latest
    (hsilent : ∀ key ∈ classKeys, calls.classDevices key = none → (k.devices key).getD [] = []) :
    deviceMap (k.compared calls) k.latest = deviceMap classKeys k.latest := by
  apply deviceMap_filter
  intro key hkey hp
  rcases Bool.and_eq_false_iff.1 hp with hnone | hnone
  · have hnone : k.devices key = none := by simpa using hnone
    simp [UsbKnown.latest, hnone]
  · exact hsilent key hkey (by simpa using hnone)

/-- The classes left out of the comparison show nothing now either. -/
theorem UsbKnown.compared_now
    (hnew : ∀ key ∈ classKeys, k.devices key = none → calls.enumerateClass key = []) :
    deviceMap (k.compared calls) calls.enumerateClass =
      deviceMap classKeys calls.enumerateClass := by
  apply deviceMap_filter
  intro key hkey hp
  rcases Bool.and_eq_false_iff.1 hp with hnone | hnone
  · exact hnew key hkey (by simpa using hnone)
  · have hnone : calls.classDevices key = none := by simpa using hnone
    simp [UsbCalls.enumerateClass, hnone]

end Harmless

/-- A harmless read reports what the successful enumerations show. -/
theorem UsbCollector.read_remembers {s : UsbCollector} {k : UsbKnown} {calls : UsbCalls}
    (hs : s.Remembers k) (hcalls : k.Harmless calls) :
    (k.read calls).1 = (s.read calls).1.changes ∧ (s.read calls).2.Remembers (k.read calls).2 := by
  obtain ⟨htick, heverRead, hcached, hprev, hunread⟩ := hs
  have hdue : (!s.everRead || (s.tick + 1) % enumEvery = 0) = k.due := by
    rw [UsbKnown.due, htick, heverRead]
  unfold UsbCollector.read UsbKnown.read
  simp only [hdue]
  cases hk : k.due with
  | false =>
      have hread : s.everRead := by
        rw [heverRead]
        cases h : k.everRead with
        | true => rfl
        | false => simp [UsbKnown.due, h] at hk
      obtain ⟨cached, hsome⟩ := Option.isSome_iff_exists.1 (hcached hread)
      simp only [hsome, Bool.false_eq_true, if_false]
      refine ⟨trivial, congrArg (· + 1) htick, heverRead, fun _ => ?_, hprev, hunread⟩
      simp
  | true =>
      have hcalls := hcalls hk
      -- a class whose enumeration fails is empty now, and was empty at its last success
      have hafter : ∀ key ∈ classKeys, calls.enumerateClass key =
          ((calls.classDevices key).or (k.devices key)).getD [] := by
        intro key hkey
        cases hclass : calls.classDevices key with
        | some devices => simp [UsbCalls.enumerateClass, hclass]
        | none =>
            have hlatest : (k.devices key).getD [] = [] := (hcalls key hkey).1 hclass
            simp [UsbCalls.enumerateClass, hclass, hlatest]
      simp only [if_true]
      refine ⟨?_, ?_, rfl, fun _ => rfl, deviceMap_congr hafter, nofun⟩
      · cases hever : k.everRead with
        | false =>
            have hnone : k.compared calls = [] := by
              simp [UsbKnown.compared, hunread hever]
            simp [UsbCollector.enumerate, heverRead, hever, hnone, deviceMap, diffDevices_nil]
        | true =>
            have hlatest := UsbKnown.compared_latest fun key hkey => (hcalls key hkey).1
            have hnow := UsbKnown.compared_now fun key hkey => (hcalls key hkey).2 hever
            simp [UsbCollector.enumerate, heverRead, hever, hlatest, hnow, hprev]
      · exact congrArg (· + 1) htick

/-! ## Adapters -/

/-- What the successful tables have shown of the adapters, and whether the table behind the last
one could not be read. -/
structure NetKnown where
  clocked : Clocked (List InterfaceCounter)
  invTick : UInt64
  adapters : List NetAdapter
  missed : Bool

/-- Adapters of one alias are in one state. -/
def Consistent (adapters : List NetAdapter) : Prop :=
  ∀ a ∈ adapters, Lookup.latest (adapterStates adapters) a.aliasName = some a.state

instance (adapters : List NetAdapter) : Decidable (Consistent adapters) :=
  inferInstanceAs (Decidable (∀ a ∈ adapters, _ = some a.state))

namespace NetKnown

def new : NetKnown := ⟨.new networkCounters, 0, [], false⟩

/-- The changes between successful tables. -/
def query (k : NetKnown) (calls : NetCalls) : List String × NetKnown :=
  let k := { k with invTick := k.invTick + 1 }
  if inventoryDue k.invTick then
    match calls.readTable with
    | .error _ => ([], { k with missed := true })
    | .ok adapters =>
        (netChanges (adapterStates k.adapters) adapters, { k with adapters, missed := false })
  else ([], k)

theorem clocked_query (k : NetKnown) (calls : NetCalls) :
    (k.query calls).2.clocked = k.clocked := by
  unfold query
  dsimp only
  split
  · split <;> rfl
  · rfl

/-- A read without counters does not come to the inventory. -/
def read (k : NetKnown) (calls : NetCalls) : List String × NetKnown :=
  let (found, clocked) := readCounters networkCounters k.clocked calls.toSurroundings
  match found.rates with
  | .error _ => ([], { k with clocked })
  | .ok _ => { k with clocked }.query calls

/-- A table lists no alias in two states, and one that follows an unreadable one shows no
change. -/
def HarmlessQuery (k : NetKnown) (calls : NetCalls) : Prop :=
  inventoryDue (k.invTick + 1) → ∀ adapters, calls.readTable = .ok adapters →
    Consistent adapters ∧ (k.missed → netChanges (adapterStates k.adapters) adapters = [])

def Harmless (k : NetKnown) (calls : NetCalls) : Prop :=
  (readCounters networkCounters k.clocked calls.toSurroundings).1.rates.isOk →
    k.HarmlessQuery calls

instance (k : NetKnown) (calls : NetCalls) : Decidable (k.HarmlessQuery calls) :=
  match htable : calls.readTable with
  | .error _ => .isTrue fun _ adapters hread => by rw [htable] at hread; cases hread
  | .ok adapters =>
      decidable_of_iff (inventoryDue (k.invTick + 1) → Consistent adapters ∧
        (k.missed → netChanges (adapterStates k.adapters) adapters = []))
        ⟨fun h hdue adapters' hread => by
            rw [htable] at hread
            cases hread
            exact h hdue,
          fun h hdue => h hdue adapters htable⟩

instance (k : NetKnown) (calls : NetCalls) : Decidable (k.Harmless calls) :=
  inferInstanceAs (Decidable (_ = true → k.HarmlessQuery calls))

end NetKnown

/-- The changes that a read reports. -/
def netReported (o : Except String NetReading) : List String :=
  match o with
  | .ok sample => sample.changes
  | .error _ => []

/-- What is remembered of the last table, nothing if it could not be read. -/
structure NetInventory.Remembers (v : NetInventory) (k : NetKnown) : Prop where
  invTick : v.invTick = k.invTick
  cached : v.cachedAdapters = if k.missed then [] else k.adapters
  prevState : v.prevState = adapterStates v.cachedAdapters
  unread : v.everRead = false → v.cachedAdapters = []
  consistent : Consistent k.adapters

/-- A collector that remembers what the last table has shown. -/
structure NetCollector.Remembers (s : NetCollector) (k : NetKnown) : Prop where
  clocked : s.clocked = k.clocked
  inventory : s.inventory.Remembers k

theorem netChanges_nil (adapters : List NetAdapter) : netChanges [] adapters = [] :=
  List.filterMap_eq_nil_iff.2 fun _ _ => rfl

/-- A consistent table has not changed from itself. -/
theorem netChanges_self {adapters : List NetAdapter} (hconsistent : Consistent adapters) :
    netChanges (adapterStates adapters) adapters = [] := by
  refine List.filterMap_eq_nil_iff.2 fun a ha => ?_
  simp [hconsistent a ha]

/-- The first comparison finds no change. -/
theorem NetInventory.compare_changes {v : NetInventory} {k : NetKnown} (hv : v.Remembers k)
    (adapters : List NetAdapter) :
    (if v.everRead then netChanges v.prevState adapters else []) =
      netChanges v.prevState adapters := by
  cases hever : v.everRead with
  | true => rfl
  | false =>
      have hnone : v.prevState = [] := by rw [hv.prevState, hv.unread hever]; rfl
      rw [hnone, netChanges_nil]
      rfl

/-- A harmless query reports what the successful tables show. -/
theorem NetInventory.refresh_compare {v : NetInventory} {k : NetKnown} {calls : NetCalls}
    (hv : v.Remembers k) (hcalls : k.HarmlessQuery calls) :
    (v.refresh calls).compare.1 = (k.query calls).1 ∧
      (v.refresh calls).compare.2.Remembers (k.query calls).2 := by
  have htick : v.invTick + 1 = k.invTick + 1 := congrArg (· + 1) hv.invTick
  unfold NetInventory.refresh NetKnown.query NetInventory.compare
  simp only [htick]
  cases hdue : inventoryDue (k.invTick + 1) with
  | false =>
      have hsame : netChanges v.prevState v.cachedAdapters = [] := by
        rw [hv.prevState, hv.cached]
        cases k.missed with
        | true => rfl
        | false => exact netChanges_self hv.consistent
      simp only [Bool.false_eq_true, if_false]
      refine ⟨(NetInventory.compare_changes hv _).trans hsame, rfl, hv.cached, rfl, nofun,
        hv.consistent⟩
  | true =>
      cases htable : calls.readTable with
      | error e =>
          simp only [if_true]
          refine ⟨(NetInventory.compare_changes hv _).trans rfl, rfl, rfl, rfl, nofun,
            hv.consistent⟩
      | ok adapters =>
          obtain ⟨hconsistent, hmissed⟩ := hcalls hdue adapters htable
          simp only [if_true]
          refine ⟨(NetInventory.compare_changes hv _).trans ?_, rfl, rfl, rfl, nofun, hconsistent⟩
          rw [hv.prevState, hv.cached]
          cases hk : k.missed with
          | true => exact (netChanges_nil adapters).trans (hmissed hk).symm
          | false => rfl

/-- A harmless read reports what the successful tables show. -/
theorem NetCollector.read_remembers {s : NetCollector} {k : NetKnown} {calls : NetCalls}
    (hs : s.Remembers k) (hcalls : k.Harmless calls) :
    (k.read calls).1 = netReported (s.read calls).1 ∧
      (s.read calls).2.Remembers (k.read calls).2 := by
  obtain ⟨hclocked, hinventory⟩ := hs
  unfold NetCollector.read NetKnown.read
  unfold NetKnown.Harmless at hcalls
  rw [← hclocked] at hcalls ⊢
  cases hread : readCounters networkCounters s.clocked calls.toSurroundings with
  | mk found clocked =>
      rw [hread] at hcalls
      dsimp only at hcalls ⊢
      cases hrates : found.rates with
      | error e =>
          refine ⟨rfl, NetCollector.clocked_applyRebuild _ _, ?_⟩
          rw [NetCollector.inventory_applyRebuild]
          exact ⟨hinventory.invTick, hinventory.cached, hinventory.prevState, hinventory.unread,
            hinventory.consistent⟩
      | ok rates =>
          rw [hrates] at hcalls
          have hk : ({ s with clocked }.inventory).Remembers { k with clocked } :=
            ⟨hinventory.invTick, hinventory.cached, hinventory.prevState, hinventory.unread,
              hinventory.consistent⟩
          obtain ⟨hchanges, hafter⟩ := NetInventory.refresh_compare hk (hcalls rfl)
          simp only [NetCollector.inventory_applyRebuild, netReported]
          refine ⟨hchanges.symm, ?_, hafter⟩
          rw [NetCollector.clocked_applyRebuild]
          exact (NetKnown.clocked_query { k with clocked } calls).symm

/-! ## Displays -/

/-- What the successful queries have shown: the displays, the brightness of displays and the
number of targets with a high dynamic range. A brightness that a query behind has not found is
missed. -/
structure DisplayKnown where
  displays : Option (List DisplayInfo)
  brightness : List (String × UInt8)
  missed : Bool
  hdrEnabled : Option Nat
  everRead : Bool

/-- Displays have been enumerated, and their brightness queried. -/
def DisplayCalls.showsBrightness (calls : DisplayCalls) : Bool :=
  calls.devices.isSome && calls.sensors.isOk

namespace DisplayKnown

def new : DisplayKnown := ⟨none, [], false, none, false⟩

/-- The displays that are compared, and the number of those before. -/
def comparedDisplays (k : DisplayKnown) (calls : DisplayCalls) : List DisplayInfo × Nat :=
  match k.displays, calls.devices with
  | some known, some _ => (calls.found.1, known.length)
  | _, _ => ([], 0)

def comparedTargets (k : DisplayKnown) (calls : DisplayCalls) : List HdrTarget × Nat :=
  match k.hdrEnabled, calls.hdr with
  | some known, .ok targets => (targets, known)
  | _, _ => ([], 0)

/-- The changes between successful queries. -/
def read (k : DisplayKnown) (calls : DisplayCalls) : List String × DisplayKnown :=
  let (displays, monitors) := k.comparedDisplays calls
  let (targets, enabled) := k.comparedTargets calls
  (diffState (displayModes (k.displays.getD [])) k.brightness monitors enabled displays targets,
    { displays := if calls.devices.isSome then some calls.found.1 else k.displays
      brightness :=
        if calls.showsBrightness then displayBrightness calls.found.1 else k.brightness
      missed := !calls.showsBrightness
      hdrEnabled := if calls.hdr.isOk then some (enabledTargets calls.targets) else k.hdrEnabled
      everRead := true })

/-- No query that fails is for displays or targets that there were before, one that succeeds for
the first time behind the first read finds none, and a brightness that was missed has not
changed. -/
structure Harmless (k : DisplayKnown) (calls : DisplayCalls) : Prop where
  displays : calls.devices = none → k.displays.getD [] = []
  firstDisplays : k.everRead → k.displays = none → calls.found.1 = []
  hdr : calls.hdr.isOk = false → k.hdrEnabled.getD 0 = 0
  firstHdr : k.everRead → k.hdrEnabled = none → enabledTargets calls.targets = 0
  brightness : k.missed → ∀ d ∈ calls.found.1, brightnessChange k.brightness d = []

instance (k : DisplayKnown) (calls : DisplayCalls) : Decidable (k.Harmless calls) :=
  decidable_of_iff ((calls.devices = none → k.displays.getD [] = []) ∧
    (k.everRead → k.displays = none → calls.found.1 = []) ∧
    (calls.hdr.isOk = false → k.hdrEnabled.getD 0 = 0) ∧
    (k.everRead → k.hdrEnabled = none → enabledTargets calls.targets = 0) ∧
    (k.missed → ∀ d ∈ calls.found.1, brightnessChange k.brightness d = []))
    ⟨fun ⟨a, b, c, d, e⟩ => ⟨a, b, c, d, e⟩, fun ⟨a, b, c, d, e⟩ => ⟨a, b, c, d, e⟩⟩

end DisplayKnown

/-- A collector that remembers what the last queries have shown. -/
structure DisplayCollector.Remembers (s : DisplayCollector) (k : DisplayKnown) : Prop where
  prevModes : s.prevModes = displayModes (k.displays.getD [])
  prevMonitors : s.prevMonitors = (k.displays.getD []).length
  prevBri : s.prevBri = if k.missed then [] else k.brightness
  prevHdrEnabled : s.prevHdrEnabled = k.hdrEnabled.getD 0
  everRead : s.everRead = k.everRead
  unread : k.everRead = false → k.displays = none ∧ k.hdrEnabled = none

/-- Without devices there are no displays. -/
theorem DisplayCalls.found_eq_nil {calls : DisplayCalls} (hnone : calls.devices = none) :
    calls.found.1 = [] := by
  unfold DisplayCalls.found
  rw [hnone]
  cases calls.sensors with
  | error e => rfl
  | ok sensors => exact foldl_placeSensor_nil sensors []

/-- What is not shown is not compared. -/
theorem DisplayCalls.brightness_found {calls : DisplayCalls}
    (hshows : calls.showsBrightness = false) : displayBrightness calls.found.1 = [] := by
  rcases Bool.and_eq_false_iff.1 hshows with hnone | herror
  · rw [found_eq_nil (by simpa using hnone)]
    rfl
  · unfold DisplayCalls.found displayBrightness
    cases hsensors : calls.sensors with
    | ok sensors => rw [hsensors] at herror; cases herror
    | error e =>
        refine List.filterMap_eq_nil_iff.2 fun d hd => ?_
        obtain ⟨dd, -, hdisplay⟩ := List.mem_filterMap.1 (List.mem_reverse.1 hd)
        unfold DisplayDevice.display at hdisplay
        split at hdisplay
        · cases hdisplay
        · obtain ⟨dm, -, rfl⟩ := Option.map_eq_some_iff.1 hdisplay
          rfl

theorem brightnessChange_nil (d : DisplayInfo) : brightnessChange [] d = [] := by
  unfold brightnessChange
  cases d.brightness <;> rfl

/-- The displays and their brightness have changed as the successful queries show. -/
theorem DisplayCollector.displays_remembered {s : DisplayCollector} {k : DisplayKnown}
    {calls : DisplayCalls} (hs : s.Remembers k) (hcalls : k.Harmless calls)
    (hread : k.everRead = true) :
    countChange "monitor count" s.prevMonitors calls.found.1.length =
        countChange "monitor count" (k.comparedDisplays calls).2
          (k.comparedDisplays calls).1.length ∧
      calls.found.1.flatMap (fun d => modeChange s.prevModes d ++ brightnessChange s.prevBri d) =
        (k.comparedDisplays calls).1.flatMap fun d =>
          modeChange (displayModes (k.displays.getD [])) d ++ brightnessChange k.brightness d := by
  rw [hs.prevMonitors, hs.prevModes, hs.prevBri]
  unfold DisplayKnown.comparedDisplays
  cases hdisplays : k.displays with
  | none =>
      rw [hcalls.firstDisplays hread hdisplays]
      exact ⟨rfl, rfl⟩
  | some known =>
      cases hdevices : calls.devices with
      | none =>
          have hnil : known = [] := by simpa [hdisplays] using hcalls.displays hdevices
          rw [DisplayCalls.found_eq_nil hdevices, hnil]
          exact ⟨rfl, rfl⟩
      | some devices =>
          refine ⟨rfl, ?_⟩
          rw [List.flatMap_def, List.flatMap_def]
          refine congrArg List.flatten (List.map_congr_left fun d hd => ?_)
          refine congrArg (_ ++ ·) ?_
          cases hmissed : k.missed with
          | false => rfl
          | true => exact (brightnessChange_nil d).trans (hcalls.brightness hmissed d hd).symm

/-- So has the number of enabled targets. -/
theorem DisplayCollector.targets_remembered {s : DisplayCollector} {k : DisplayKnown}
    {calls : DisplayCalls} (hs : s.Remembers k) (hcalls : k.Harmless calls)
    (hread : k.everRead = true) (what : String) :
    countChange what s.prevHdrEnabled (enabledTargets calls.targets) =
      countChange what (k.comparedTargets calls).2
        (enabledTargets (k.comparedTargets calls).1) := by
  rw [hs.prevHdrEnabled]
  unfold DisplayKnown.comparedTargets
  cases henabled : k.hdrEnabled with
  | none =>
      rw [hcalls.firstHdr hread henabled]
      rfl
  | some enabled =>
      cases hhdr : calls.hdr with
      | ok targets => simp [DisplayCalls.targets, hhdr]
      | error e =>
          have hzero : enabled = 0 := by
            simpa [henabled] using hcalls.hdr (by rw [hhdr]; rfl)
          simp [DisplayCalls.targets, hhdr, hzero]

/-- A harmless read reports what the successful queries show. -/
theorem DisplayCollector.read_remembers {s : DisplayCollector} {k : DisplayKnown}
    {calls : DisplayCalls} (hs : s.Remembers k) (hcalls : k.Harmless calls) :
    (k.read calls).1 = (s.read calls).1.changes ∧
      (s.read calls).2.Remembers (k.read calls).2 := by
  constructor
  · unfold DisplayCollector.read DisplayKnown.read
    simp only [hs.everRead]
    cases hread : k.everRead with
    | false =>
        obtain ⟨hdisplays, hhdr⟩ := hs.unread hread
        simp [DisplayKnown.comparedDisplays, DisplayKnown.comparedTargets, hdisplays, hhdr,
          diffState, countChange, enabledTargets]
    | true =>
        obtain ⟨hcount, hchanges⟩ := DisplayCollector.displays_remembered hs hcalls hread
        have hhdr := DisplayCollector.targets_remembered hs hcalls hread "HDR enabled targets"
        simp only [if_true, diffState, hcount, hchanges, hhdr]
  · unfold DisplayCollector.read DisplayKnown.read
    have hdisplays : calls.found.1 =
        (if calls.devices.isSome then some calls.found.1 else k.displays).getD [] := by
      cases hdevices : calls.devices with
      | some devices => rfl
      | none => exact (DisplayCalls.found_eq_nil hdevices).trans (hcalls.displays hdevices).symm
    refine ⟨congrArg displayModes hdisplays, congrArg List.length hdisplays, ?_, ?_, rfl, nofun⟩
    · cases hshows : calls.showsBrightness with
      | true => rfl
      | false => exact DisplayCalls.brightness_found hshows
    · cases hhdr : calls.hdr with
      | ok targets => rfl
      | error e =>
          have hzero := hcalls.hdr (by rw [hhdr]; rfl)
          unfold DisplayCalls.targets
          rw [hhdr]
          exact hzero.symm

/-! ## Runs -/

/-- In runs whose reads are harmless the three collectors report what the successful queries of
their inventories show, read by read. -/
theorem changes_eq_known {usb : List UsbCalls} {net : List NetCalls} {display : List DisplayCalls}
    (husb : Meets UsbKnown.read UsbKnown.Harmless .new usb)
    (hnet : Meets NetKnown.read NetKnown.Harmless .new net)
    (hdisplay : Meets DisplayKnown.read DisplayKnown.Harmless .new display) :
    (responses UsbCollector.read .new usb).map UsbSample.changes =
        responses UsbKnown.read .new usb ∧
      (responses NetCollector.read .new net).map netReported =
        responses NetKnown.read .new net ∧
      (responses DisplayCollector.read .new display).map DisplaySample.changes =
        responses DisplayKnown.read .new display := by
  refine ⟨?_, ?_, ?_⟩
  · rw [map_responses]
    refine (responses_eq (R := fun k s => UsbCollector.Remembers s k) ?_ ?_ husb).symm
    · exact fun k s calls => UsbCollector.read_remembers
    · exact ⟨rfl, rfl, nofun, rfl, fun _ _ => rfl⟩
  · rw [map_responses]
    refine (responses_eq (R := fun k s => NetCollector.Remembers s k) ?_ ?_ hnet).symm
    · exact fun k s calls => NetCollector.read_remembers
    · exact ⟨rfl, rfl, rfl, rfl, fun _ => rfl, nofun⟩
  · rw [map_responses]
    refine (responses_eq (R := fun k s => DisplayCollector.Remembers s k) ?_ ?_ hdisplay).symm
    · exact fun k s calls => DisplayCollector.read_remembers
    · exact ⟨rfl, rfl, rfl, rfl, rfl, fun _ => ⟨rfl, rfl⟩⟩

/-- Devices of one class, while the enumeration of another fails. -/
def mouseOnly (failing : String) : UsbCalls where
  classDevices key :=
    if key = failing then none else if key = "usb" then some [⟨"A", "Mouse", true⟩] else some []
  powerDevices := .ok []

/-- Counters that are there, but no table of adapters. -/
def noTable : NetCalls where
  init :=
    { opened := .ok ()
      enumInstances := fun _ => .ok ["Ethernet"]
      add := fun _ => 1
      first := .ok ()
      second := .ok () }
  rebuild :=
    { opened := .error "PdhOpenQuery failed: 1"
      enumInstances := fun _ => .error "no representative counter"
      add := fun _ => 0
      first := .ok ()
      second := .ok () }
  collect := .ok ()
  readTable := .error "GetIfTable2 failed: 8"
  queryWifi := []

/-- A display whose targets cannot be queried. -/
def noTargets : DisplayCalls where
  devices := some [⟨"DISPLAY1", false, true, true, some ⟨1920, 1200, 60, 32⟩, []⟩]
  sensors := .ok []
  hdr := .error "QueryDisplayConfig failed"

/-- A keyboard beside the mouse. -/
def withKeyboard : UsbCalls where
  classDevices key :=
    if key = "hid" then some [⟨"K", "Keyboard", true⟩] else (mouseOnly "").classDevices key
  powerDevices := .ok []

/-- The fifth read fails for a class without devices, and the tenth finds one in it. -/
def usbReads : List UsbCalls :=
  List.replicate 4 (mouseOnly "") ++ mouseOnly "hid" :: List.replicate 4 (mouseOnly "") ++
    [withKeyboard]

/-- An adapter that is up or down. -/
def ethernet (oper : UInt32) : NetAdapter where
  aliasName := "Ethernet"
  descr := ""
  guid := []
  adapterClass := "ethernet"
  iftype := "6"
  oper
  operName := operName oper
  media := "connected"
  adminUp := true
  txMbps := 1000.0
  rxMbps := 1000.0
  inOctets := 0
  outOctets := 0

/-- The first table cannot be read, those of the thirtieth and the sixtieth read can. -/
def netReads : List NetCalls :=
  List.replicate 29 noTable ++ { noTable with readTable := .ok [ethernet 1] } ::
    List.replicate 29 noTable ++ [{ noTable with readTable := .ok [ethernet 2] }]

/-- The targets cannot be queried at first. The display then changes its mode, and one target is
enabled. -/
def displayReads : List DisplayCalls :=
  [noTargets, { smaller with hdr := .ok [⟨0, 0, 1, true, false⟩] },
    { smaller with hdr := .ok [⟨0, 0, 1, true, true⟩] }]
where
  smaller : DisplayCalls :=
    { noTargets with
      devices := some [⟨"DISPLAY1", false, true, true, some ⟨1920, 1080, 60, 32⟩, []⟩] }

theorem changes_eq_known_failures :
    (responses UsbCollector.read .new usbReads).map UsbSample.changes =
        responses UsbKnown.read .new usbReads ∧
      (responses NetCollector.read .new netReads).map netReported =
        responses NetKnown.read .new netReads ∧
      (responses DisplayCollector.read .new displayReads).map DisplaySample.changes =
        responses DisplayKnown.read .new displayReads :=
  changes_eq_known (by decide +kernel) (by decide +kernel) (by decide +kernel)

example : (responses UsbKnown.read .new usbReads).flatten = ["connected: Keyboard [hid:K]"] ∧
    (responses NetKnown.read .new netReads).flatten = ["Ethernet connected Up -> connected Down"] ∧
      (responses DisplayKnown.read .new displayReads).flatten =
        ["mode DISPLAY1 1920x1200@60Hz -> 1920x1080@60Hz", "HDR enabled targets 0 -> 1"] := by
  decide +kernel

/-- A device is plugged in all the time, but the enumeration of its class fails in the fifth
read: it is reported to be gone. -/
theorem changes_ne_known :
    (responses UsbCollector.read .new
        (mouseOnly "hid" :: List.replicate 4 (mouseOnly "usb"))).map UsbSample.changes ≠
      responses UsbKnown.read .new (mouseOnly "hid" :: List.replicate 4 (mouseOnly "usb")) := by
  decide +kernel

end PowerForensics.Collectors
