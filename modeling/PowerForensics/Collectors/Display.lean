import Mathlib.Data.UInt

/-! # Display collector

Every read enumerates the displays, queries their brightness and the targets with a high dynamic
range, and compares the three with what the read before has found.
-/

namespace PowerForensics.Collectors

structure DisplayInfo where
  name : String
  primary : Bool
  width : UInt32
  height : UInt32
  freqHz : UInt32
  bpp : UInt32
  brightness : Option UInt8
  brightnessLevels : Option UInt32

structure HdrTarget where
  adapterLow : UInt32
  adapterHigh : UInt32
  targetId : UInt32
  supported : Bool
  enabled : Bool

structure DisplaySample where
  displays : List DisplayInfo
  unmatchedSensors : List (String × UInt8)
  hdr : List HdrTarget
  hdrError : Option String
  changes : List String

/-! ## Enumeration -/

structure DisplayMode where
  width : UInt32
  height : UInt32
  freqHz : UInt32
  bpp : UInt32

/-- A display device, with its current mode if there is one and the identifiers of the monitors
under it. -/
structure DisplayDevice where
  name : String
  mirror : Bool
  attached : Bool
  primary : Bool
  mode : Option DisplayMode
  monitorIds : List String

/-- The first monitor names the display. -/
def DisplayDevice.displayName (dd : DisplayDevice) : String :=
  if dd.name = "" then dd.name else (dd.monitorIds.find? (· ≠ "")).getD dd.name

def DisplayDevice.display (dd : DisplayDevice) : Option DisplayInfo :=
  if dd.mirror || !dd.attached then none
  else
    dd.mode.map fun dm =>
      ⟨dd.displayName, dd.primary, dm.width, dm.height, dm.freqHz, dm.bpp, none, none⟩

/-! ## Brightness -/

structure BrightnessSensor where
  instanceName : String
  brightness : UInt8
  levels : UInt32

/-- The second of the parts between backslashes, in lower case. -/
def monitorToken (id : String) : List Char :=
  (((id.toList.splitOn '\\')[1]?).getD []).map Char.toLower

def matchSensor (monitorId sensorInstance : String) : Bool :=
  monitorToken monitorId ≠ [] ∧ monitorToken monitorId = monitorToken sensorInstance

/-- The first display of a sensor shows its brightness. -/
def showBrightness (s : BrightnessSensor) : List DisplayInfo → Option (List DisplayInfo)
  | [] => none
  | d :: displays =>
      if matchSensor d.name s.instanceName then
        some ({ d with brightness := some s.brightness, brightnessLevels := some s.levels }
          :: displays)
      else (showBrightness s displays).map (d :: ·)

/-- A sensor without a display is left over. -/
def placeSensor (p : List DisplayInfo × List (String × UInt8)) (s : BrightnessSensor) :
    List DisplayInfo × List (String × UInt8) :=
  match showBrightness s p.1 with
  | some displays => (displays, p.2)
  | none => (p.1, p.2 ++ [(s.instanceName, s.brightness)])

/-- The sensors are matched one after another. -/
def matchSensors (displays : List DisplayInfo) (sensors : List BrightnessSensor) :
    List DisplayInfo × List (String × UInt8) :=
  sensors.foldl placeSensor (displays, [])

theorem foldl_placeSensor_nil (sensors : List BrightnessSensor)
    (unmatched : List (String × UInt8)) :
    (sensors.foldl placeSensor ([], unmatched)).1 = [] := by
  induction sensors generalizing unmatched with
  | nil => rfl
  | cons s sensors ih => exact ih _

/-! ## Changes -/

def enabledTargets (hdr : List HdrTarget) : Nat := (hdr.filter (·.enabled)).length

def modeChange (prevModes : List (String × (UInt32 × UInt32 × UInt32))) (d : DisplayInfo) :
    List String :=
  match prevModes.lookup d.name with
  | none => []
  | some (w, h, f) =>
      if w ≠ d.width ∨ h ≠ d.height ∨ f ≠ d.freqHz then
        [s!"mode {d.name} {w}x{h}@{f}Hz -> {d.width}x{d.height}@{d.freqHz}Hz"]
      else []

def brightnessChange (prevBri : List (String × UInt8)) (d : DisplayInfo) : List String :=
  match d.brightness, prevBri.lookup d.name with
  | some b, some pb => if pb = b then [] else [s!"brightness {d.name} {pb}% -> {b}%"]
  | _, _ => []

def countChange (what : String) (prev now : Nat) : List String :=
  if now = prev then [] else [s!"{what} {prev} -> {now}"]

def diffState (prevModes : List (String × (UInt32 × UInt32 × UInt32)))
    (prevBri : List (String × UInt8)) (prevMonitors prevHdrEnabled : Nat)
    (displays : List DisplayInfo) (hdr : List HdrTarget) : List String :=
  countChange "monitor count" prevMonitors displays.length ++
    displays.flatMap (fun d => modeChange prevModes d ++ brightnessChange prevBri d) ++
    countChange "HDR enabled targets" prevHdrEnabled (enabledTargets hdr)

/-- The modes by name. Of displays of one name the last one counts, which comes first here. -/
def displayModes (displays : List DisplayInfo) : List (String × (UInt32 × UInt32 × UInt32)) :=
  displays.reverse.map fun d => (d.name, (d.width, d.height, d.freqHz))

def displayBrightness (displays : List DisplayInfo) : List (String × UInt8) :=
  displays.reverse.filterMap fun d => d.brightness.map fun b => (d.name, b)

/-! ## Collector -/

/-- How the queries of one read go. There are no devices where they cannot be enumerated. -/
structure DisplayCalls where
  devices : Option (List DisplayDevice)
  sensors : Except String (List BrightnessSensor)
  hdr : Except String (List HdrTarget)

/-- The displays of a read with the brightness they show, and the sensors left over. -/
def DisplayCalls.found (calls : DisplayCalls) : List DisplayInfo × List (String × UInt8) :=
  let displays := (calls.devices.getD []).filterMap DisplayDevice.display
  match calls.sensors with
  | .ok sensors => matchSensors displays sensors
  | .error e => (displays, [(s!"wmi-error: {e}", 0)])

/-- A failed query returns no targets. -/
def DisplayCalls.targets (calls : DisplayCalls) : List HdrTarget :=
  match calls.hdr with
  | .ok targets => targets
  | .error _ => []

def DisplayCalls.hdrError (calls : DisplayCalls) : Option String :=
  match calls.hdr with
  | .ok _ => none
  | .error e => some e

structure DisplayCollector where
  prevModes : List (String × (UInt32 × UInt32 × UInt32))
  prevBri : List (String × UInt8)
  prevMonitors : Nat
  prevHdrEnabled : Nat
  everRead : Bool

namespace DisplayCollector

def new : DisplayCollector := ⟨[], [], 0, 0, false⟩

def read (s : DisplayCollector) (calls : DisplayCalls) : DisplaySample × DisplayCollector :=
  let displays := calls.found.1
  ({ displays
     unmatchedSensors := calls.found.2
     hdr := calls.targets
     hdrError := calls.hdrError
     changes :=
      if s.everRead then
        diffState s.prevModes s.prevBri s.prevMonitors s.prevHdrEnabled displays calls.targets
      else [] },
    { prevModes := displayModes displays
      prevBri := displayBrightness displays
      prevMonitors := displays.length
      prevHdrEnabled := enabledTargets calls.targets
      everRead := true })

end DisplayCollector

end PowerForensics.Collectors
