import PowerForensics.Collectors.DisplayLine
import PowerForensics.Collectors.SampleLines
import PowerForensics.System.Slots

/-! # Brightness and its sensors

The value of a sensor should come into the sample once: at one display with its hardware token,
which then shows no other value, or among the sensors left over. After a query that failed there
should be no value at all.

Every sensor goes to the first display with its token, also if another sensor is there already. Of
two monitors of one model the first one shows the value of the last sensor, the second one nothing,
and the value of the other sensor is lost. The error of a query is written as a sensor with the
brightness zero, and this is loaded as a reading.
-/

namespace PowerForensics.Collectors

open Json Session

/-! ## What is asked of the sample -/

/-- A display shows the value of a sensor with its token. -/
structure Shows (d : DisplayInfo) (s : BrightnessSensor) : Prop where
  token : matchSensor d.name s.instanceName = true
  brightness : d.brightness = some s.brightness
  levels : d.brightnessLevels = some s.levels

/-- Every sensor is placed at a display or nowhere. -/
structure Placed (placements : List (BrightnessSensor × Option Nat))
    (sensors : List BrightnessSensor) (displays : List DisplayInfo)
    (unmatched : List (String × UInt8)) : Prop where
  every : placements.map Prod.fst = sensors
  once : (placements.filterMap Prod.snd).Nodup
  shown : ∀ s j, (s, some j) ∈ placements → ∃ d, displays[j]? = some d ∧ Shows d s
  noOther : ∀ (j : Nat) d, displays[j]? = some d → d.brightness.isSome →
    j ∈ placements.filterMap Prod.snd
  leftOver : unmatched.Perm
    ((placements.filter (·.2 = none)).map fun p => (p.1.instanceName, p.1.brightness))

def Attributed (sensors : List BrightnessSensor) (displays : List DisplayInfo)
    (unmatched : List (String × UInt8)) : Prop :=
  ∃ placements, Placed placements sensors displays unmatched

/-- Neither a display nor a sensor has a number for its brightness. -/
structure NoBrightness (q : DisplayPoint) : Prop where
  first : q.brightness.val = none
  displays : ∀ e ∈ q.displays, e.brightness.val = none
  sensors : ∀ u ∈ q.unmatchedSensors, u.2 = none

/-- A session of the line has no brightness. -/
def LoadsNoBrightness (line : Doc) : Prop :=
  ∀ (label : String) (h : Header) (s : SessionData), loadSession label (headed h line) = .ok s →
    ∀ q ∈ s.display, NoBrightness q

def BrightnessTrue (calls : DisplayCalls) (sample : DisplaySample) : Prop :=
  match calls.sensors with
  | .ok sensors => Attributed sensors sample.displays sample.unmatchedSensors
  | .error _ => ∀ (stamp : ClockStamp) (tStartMs tEndMs : UInt64),
      LoadsNoBrightness (displayJson sample stamp tStartMs tEndMs)

/-! ## Sensors go to their first display -/

/-- The first display with the token of a sensor. -/
def firstDisplay (displays : List DisplayInfo) (s : BrightnessSensor) : Option Nat :=
  displays.findIdx? fun d => matchSensor d.name s.instanceName

def setBrightness (s : BrightnessSensor) (d : DisplayInfo) : DisplayInfo :=
  { d with brightness := some s.brightness, brightnessLevels := some s.levels }

def leftOver (s : BrightnessSensor) : String × UInt8 := (s.instanceName, s.brightness)

theorem showBrightness_eq (s : BrightnessSensor) (displays : List DisplayInfo) :
    showBrightness s displays =
      (firstDisplay displays s).map fun j => displays.modify j (setBrightness s) := by
  induction displays with
  | nil => rfl
  | cons d displays ih =>
      rw [showBrightness, firstDisplay, List.findIdx?_cons]
      by_cases hmatch : matchSensor d.name s.instanceName
      · simp [hmatch, setBrightness]
      · rw [if_neg hmatch, if_neg hmatch, ih, firstDisplay, Option.map_map, Option.map_map]
        rfl

/-- Showing a brightness changes no name, and so no first display. -/
theorem firstDisplay_modify (displays : List DisplayInfo) (s s' : BrightnessSensor) (j : Nat) :
    firstDisplay (displays.modify j (setBrightness s')) s = firstDisplay displays s := by
  induction displays generalizing j with
  | nil => simp
  | cons d displays ih =>
      cases j with
      | zero => simp [firstDisplay, List.findIdx?_cons, setBrightness]
      | succ j =>
          have htail := ih j
          rw [firstDisplay, firstDisplay] at htail
          rw [firstDisplay, firstDisplay, List.modify_succ_cons, List.findIdx?_cons,
            List.findIdx?_cons, htail]

theorem foldl_placeSensor (displays : List DisplayInfo) (sensors : List BrightnessSensor) :
    (∀ s, firstDisplay (sensors.foldl placeSensor (displays, [])).1 s = firstDisplay displays s) ∧
      sensors.foldl placeSensor (displays, []) =
        (sensors.foldl (Slots.place (firstDisplay displays) setBrightness) (displays, [])).map id
          (List.map leftOver) := by
  induction sensors using List.reverseRecOn with
  | nil => exact ⟨fun _ => rfl, rfl⟩
  | append_singleton sensors s ih =>
      -- a brightness changes no name, so the next sensor looks for the same display
      obtain ⟨hfirst, hplace⟩ := ih
      rw [List.foldl_concat, List.foldl_concat, placeSensor, showBrightness_eq, hfirst, Slots.place]
      cases hdisplay : firstDisplay displays s with
      | none =>
          refine ⟨hfirst, ?_⟩
          rw [hplace]
          simp [leftOver]
      | some j =>
          refine ⟨fun s' => ?_, ?_⟩
          · exact (firstDisplay_modify _ s' s j).trans (hfirst s')
          · rw [hplace]
            rfl

section Sensors

variable {displays : List DisplayInfo} {sensors : List BrightnessSensor}

/-- A display shows the last sensor that comes to it. -/
theorem getElem?_matchSensors (j : Nat) :
    (matchSensors displays sensors).1[j]? = displays[j]?.map fun d =>
      (Slots.occupant (firstDisplay displays) sensors j).elim d (setBrightness · d) := by
  have hreplace : ∀ s s' d, setBrightness s (setBrightness s' d) = setBrightness s d :=
    fun _ _ _ => rfl
  rw [matchSensors, (foldl_placeSensor displays sensors).2]
  exact Slots.getElem?_foldl_place hreplace displays sensors j

theorem snd_matchSensors : (matchSensors displays sensors).2 =
    (sensors.filter (firstDisplay displays · = none)).map leftOver := by
  rw [matchSensors, (foldl_placeSensor displays sensors).2, ← Slots.snd_foldl_place]
  rfl

/-- The first display of a sensor has its token. -/
theorem token_of_firstDisplay {s : BrightnessSensor} {j : Nat}
    (hfirst : firstDisplay displays s = some j) :
    ∃ d, displays[j]? = some d ∧ matchSensor d.name s.instanceName = true := by
  obtain ⟨hj, hmatch, -⟩ := List.findIdx?_eq_some_iff_getElem.mp hfirst
  exact ⟨displays[j], List.getElem?_eq_getElem hj, hmatch⟩

/-- A display that shows a brightness has a sensor that came to it. -/
theorem named_of_shown (hnone : ∀ d ∈ displays, d.brightness = none) {j : Nat} {d : DisplayInfo}
    (hd : (matchSensors displays sensors).1[j]? = some d) (hshown : d.brightness.isSome) :
    j ∈ sensors.filterMap (firstDisplay displays) := by
  rw [getElem?_matchSensors] at hd
  obtain ⟨d', hd', rfl⟩ := Option.map_eq_some_iff.mp hd
  cases hoccupant : Slots.occupant (firstDisplay displays) sensors j with
  | none =>
      rw [hoccupant, Option.elim_none, hnone d' (List.mem_of_getElem? hd')] at hshown
      exact absurd hshown (by decide)
  | some s =>
      obtain ⟨hs, hfirst⟩ := Slots.mem_of_occupant hoccupant
      exact List.mem_filterMap.mpr ⟨s, hs, hfirst⟩

/-- Sensors with displays of their own are placed there. -/
theorem attributed_of_nodup (hnone : ∀ d ∈ displays, d.brightness = none)
    (hdistinct : (sensors.filterMap (firstDisplay displays)).Nodup) :
    Attributed sensors (matchSensors displays sensors).1 (matchSensors displays sensors).2 := by
  have hnamed : (sensors.map fun s => (s, firstDisplay displays s)).filterMap Prod.snd =
      sensors.filterMap (firstDisplay displays) := by
    rw [List.filterMap_map]
    rfl
  refine ⟨sensors.map fun s => (s, firstDisplay displays s), ?_, ?_, ?_, ?_, ?_⟩
  · rw [List.map_map]
    exact List.map_id _
  · rw [hnamed]
    exact hdistinct
  · intro s j hplaced
    obtain ⟨s', hs, heq⟩ := List.mem_map.mp hplaced
    obtain ⟨rfl, hfirst⟩ := Prod.mk.injEq .. ▸ heq
    obtain ⟨d, hd, htoken⟩ := token_of_firstDisplay hfirst
    refine ⟨setBrightness s' d, ?_, htoken, rfl, rfl⟩
    rw [getElem?_matchSensors, hd, Slots.occupant_of_mem hdistinct hs hfirst]
    rfl
  · intro j d hd hshown
    rw [hnamed]
    exact named_of_shown hnone hd hshown
  · rw [snd_matchSensors, List.filter_map, List.map_map]
    exact List.Perm.refl _

/-- Two sensors with one first display are not both placed. -/
theorem nodup_of_attributed (hnone : ∀ d ∈ displays, d.brightness = none)
    (hattributed : Attributed sensors (matchSensors displays sensors).1
      (matchSensors displays sensors).2) :
    (sensors.filterMap (firstDisplay displays)).Nodup := by
  obtain ⟨placements, hplaced⟩ := hattributed
  have htaken : placements.filterMap Prod.snd ⊆ sensors.filterMap (firstDisplay displays) := by
    intro j hj
    obtain ⟨⟨s, j'⟩, hmem, rfl⟩ := List.mem_filterMap.mp hj
    obtain ⟨d, hd, hshows⟩ := hplaced.shown s j hmem
    apply named_of_shown hnone hd
    rw [hshows.brightness]
    rfl
  -- as many sensors are left over as have no display, so as many are placed as have one
  have hleft : (placements.filter (·.2 = none)).length =
      (sensors.filter (firstDisplay displays · = none)).length := by
    have hlength := hplaced.leftOver.length_eq
    rw [snd_matchSensors, List.length_map, List.length_map] at hlength
    exact hlength.symm
  have htotal : placements.length = sensors.length := by
    rw [← hplaced.every, List.length_map]
  have hplacements := Slots.length_named_add_left (Prod.snd (α := BrightnessSensor)) placements
  have hsensors := Slots.length_named_add_left (firstDisplay displays) sensors
  apply Slots.nodup_of_taken hplaced.once htaken
  omega

end Sensors

/-! ## A failed query -/

theorem loadsOne_displayJson (sample : DisplaySample) (stamp : ClockStamp)
    (tStartMs tEndMs : UInt64) :
    LoadsOne (displayJson sample stamp tStartMs tEndMs) SessionData.display fun q =>
      q.unmatchedSensors = sample.unmatchedSensors.map fun u => (u.1, some (.ofNat u.2.toNat)) := by
  refine loadsOne_of (reads_displayJson sample stamp tStartMs tEndMs) (by decide) rfl rfl ?_
    (fun _ _ _ _ => rfl)
    fun s => ⟨_, loadDisplay_displayJson sample stamp tStartMs tEndMs s _, rfl⟩
  rfl

/-- Every sensor that is left over is loaded with a brightness. -/
theorem not_loadsNoBrightness {sample : DisplaySample} {u : String × UInt8}
    (hu : u ∈ sample.unmatchedSensors) (stamp : ClockStamp) (tStartMs tEndMs : UInt64) :
    ¬ LoadsNoBrightness (displayJson sample stamp tStartMs tEndMs) := by
  intro hloads
  obtain ⟨-, -, hone⟩ := loadsOne_displayJson sample stamp tStartMs tEndMs
  obtain ⟨s, q, hs, hdisplay, hsensors⟩ := hone "" ⟨0, "", 0, ""⟩
  have hq := hloads "" ⟨0, "", 0, ""⟩ s hs q (hdisplay ▸ List.mem_singleton_self q)
  have hmem : (u.1, some (Binary64.ofNat u.2.toNat)) ∈ q.unmatchedSensors := by
    rw [hsensors]
    exact List.mem_map.mpr ⟨u, hu, rfl⟩
  exact absurd (hq.sensors _ hmem) (by simp)

/-! ## When brightness is attributed -/

/-- The displays of a read before their brightness is known. -/
def DisplayCalls.enumerated (calls : DisplayCalls) : List DisplayInfo :=
  (calls.devices.getD []).filterMap DisplayDevice.display

theorem brightness_enumerated (calls : DisplayCalls) :
    ∀ d ∈ calls.enumerated, d.brightness = none := by
  intro d hd
  obtain ⟨dd, -, hdd⟩ := List.mem_filterMap.mp hd
  rw [DisplayDevice.display] at hdd
  split at hdd
  · exact absurd hdd (by simp)
  · obtain ⟨dm, -, rfl⟩ := Option.map_eq_some_iff.mp hdd
    rfl

/-- No display is the first one of two sensors. -/
def OwnDisplays (calls : DisplayCalls) (sensors : List BrightnessSensor) : Prop :=
  (sensors.filterMap (firstDisplay calls.enumerated)).Nodup

instance (calls : DisplayCalls) (sensors : List BrightnessSensor) :
    Decidable (OwnDisplays calls sensors) :=
  inferInstanceAs (Decidable (sensors.filterMap (firstDisplay calls.enumerated)).Nodup)

theorem attributed_iff (calls : DisplayCalls) (sensors : List BrightnessSensor) :
    Attributed sensors (matchSensors calls.enumerated sensors).1
      (matchSensors calls.enumerated sensors).2 ↔ OwnDisplays calls sensors :=
  ⟨nodup_of_attributed (brightness_enumerated calls),
    attributed_of_nodup (brightness_enumerated calls)⟩

/-- The brightness of a sample is what its sensors have reported exactly where the query has
succeeded and no display is the first one of two sensors. -/
theorem brightnessTrue_iff (c : DisplayCollector) (calls : DisplayCalls) :
    BrightnessTrue calls (c.read calls).1 ↔
      ∃ sensors, calls.sensors = .ok sensors ∧ OwnDisplays calls sensors := by
  cases hsensors : calls.sensors with
  | ok sensors =>
      have hfound : calls.found = matchSensors calls.enumerated sensors := by
        rw [DisplayCalls.found, hsensors]
        rfl
      have hattributed : BrightnessTrue calls (c.read calls).1 ↔ OwnDisplays calls sensors := by
        rw [BrightnessTrue, hsensors, ← attributed_iff, ← hfound]
        rfl
      rw [hattributed]
      constructor
      · intro hown
        exact ⟨sensors, rfl, hown⟩
      · rintro ⟨_, ⟨⟩, hown⟩
        exact hown
  | error e =>
      have hleft : (s!"wmi-error: {e}", (0 : UInt8)) ∈ (c.read calls).1.unmatchedSensors := by
        change _ ∈ calls.found.2
        rw [DisplayCalls.found, hsensors]
        exact List.mem_singleton_self _
      constructor
      · intro htrue
        rw [BrightnessTrue, hsensors] at htrue
        exact absurd (htrue default 0 0) (not_loadsNoBrightness hleft default 0 0)
      · rintro ⟨_, ⟨⟩, -⟩

def twinMonitor (adapter : String) : DisplayDevice :=
  ⟨adapter, false, true, false, some ⟨1920, 1080, 60, 32⟩, ["MONITOR\\DELA0EC\\0001"]⟩

def twinMonitors (sensors : Except String (List BrightnessSensor)) : DisplayCalls :=
  ⟨some [twinMonitor "DISPLAY1", twinMonitor "DISPLAY2"], sensors, .ok []⟩

def twinSensors : List BrightnessSensor :=
  [⟨"DISPLAY\\DELA0EC\\4&1_0", 40, 101⟩, ⟨"DISPLAY\\DELA0EC\\4&2_0", 70, 101⟩]

/-- The first of two monitors of one model shows the value of the second sensor, and that of the
first sensor is nowhere. Without an answer there still is a brightness. -/
theorem brightness_overwritten :
    ¬ BrightnessTrue (twinMonitors (.ok twinSensors))
      (DisplayCollector.new.read (twinMonitors (.ok twinSensors))).1 ∧
    ¬ BrightnessTrue (twinMonitors (.error "0x80041003"))
      (DisplayCollector.new.read (twinMonitors (.error "0x80041003"))).1 := by
  constructor
  · intro htrue
    have hattributed : Attributed twinSensors
        (matchSensors (twinMonitors (.ok twinSensors)).enumerated twinSensors).1
        (matchSensors (twinMonitors (.ok twinSensors)).enumerated twinSensors).2 := htrue
    exact absurd ((attributed_iff _ _).mp hattributed) (by decide)
  · intro htrue
    exact not_loadsNoBrightness (List.mem_singleton_self _) default 0 0 (htrue default 0 0)

end PowerForensics.Collectors
