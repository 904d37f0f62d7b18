import PowerForensics.Collectors.Display
import PowerForensics.Core.HeadedLine
import PowerForensics.Core.StoredDoc

/-! # Display collector: its line

A sample has the displays with the brightness they show, and the sensors without a display. The
brightness of a display is written in an envelope, and that of a sensor as it is. A query that
failed is told by the name of a sensor.
-/

namespace PowerForensics.Collectors

open Json Session

/-! ## The line -/

/-- The query of the sensors has failed. -/
def wmiFailed (sample : DisplaySample) : Bool :=
  sample.unmatchedSensors.any fun u => "wmi-error".toList.isPrefixOf u.1.toList

def brightnessReason (failed : Bool) : String :=
  if failed then "WMI brightness query failed" else "no WMI sensor matched"

def brightnessKind (failed : Bool) : UnavailKind :=
  if failed then .transientError else .unsupported

def brightnessDoc (failed : Bool) (brightness : Option UInt8) : Doc :=
  .jsonNum (brightness.map fun b => .ofNat b.toNat) .measured (brightnessKind failed)
    (brightnessReason failed)

def displayDoc (failed : Bool) (d : DisplayInfo) : Doc :=
  .obj [("name", .str d.name), ("primary", .bool d.primary), ("width", .digits d.width.toNat),
    ("height", .digits d.height.toNat), ("freq_hz", .digits d.freqHz.toNat),
    ("bpp", .digits d.bpp.toNat), ("brightness_pct", brightnessDoc failed d.brightness)]

def sensorDoc (sensor : String × UInt8) : Doc :=
  .obj [("instance", .str sensor.1), ("brightness", .digits sensor.2.toNat)]

def targetText (t : HdrTarget) : String := hexText t.adapterLow ++ "/" ++ hexText t.adapterHigh

def targetDoc (t : HdrTarget) : Doc :=
  .obj [("adapter", .str (targetText t)), ("target", .digits t.targetId.toNat),
    ("supported", .bool t.supported), ("enabled", .bool t.enabled)]

def hdrErrorDoc (error : Option String) : Doc :=
  match error with
  | some e => .str e
  | none => .null

def displayMembers (sample : DisplaySample) (stamp : ClockStamp) (tStartMs tEndMs : UInt64) :
    List (String × Doc) :=
  [("collector", .str "display"), ("wall_ms", .digits stamp.wallMillis.toNat),
    ("mono_ms", .digits stamp.monoMillis.toNat), ("t_start_ms", .digits tStartMs.toNat),
    ("t_end_ms", .digits tEndMs.toNat),
    ("displays", .arr (sample.displays.map (displayDoc (wmiFailed sample)))),
    ("unmatched_sensors", .arr (sample.unmatchedSensors.map sensorDoc)),
    ("hdr_targets", .arr (sample.hdr.map targetDoc)), ("hdr_error", hdrErrorDoc sample.hdrError),
    ("changes", .arr (sample.changes.map Doc.str))]

def displayJson (sample : DisplaySample) (stamp : ClockStamp) (tStartMs tEndMs : UInt64) : Doc :=
  .obj (displayMembers sample stamp tStartMs tEndMs)

/-! ## The line is read -/

section Reads

variable {levels : Nat}

theorem stored_brightnessDoc (failed : Bool) (brightness : Option UInt8) :
    (brightnessDoc failed brightness).Stored (levels + 2) := by
  refine Doc.stored_jsonNum (fun x hx => ?_) _ _ (JVal.cut_of_short ?_)
  · obtain ⟨b, -, rfl⟩ := Option.mem_map.mp hx
    exact Binary64.isFinite_ofNat ((UInt8.toNat_lt b).trans (by decide))
  · cases failed <;> decide

theorem stored_displayDoc (failed : Bool) (d : DisplayInfo) :
    (displayDoc failed d).Stored (levels + 3) := by
  refine Doc.stored_obj ?_ (by simp)
  simp only [List.forall_mem_cons, List.not_mem_nil, false_imp_iff, implies_true, and_true]
  exact ⟨Doc.stored_str _, Doc.stored_bool _, Doc.stored_digits _, Doc.stored_digits _,
    Doc.stored_digits _, Doc.stored_digits _, stored_brightnessDoc failed d.brightness⟩

theorem stored_sensorDoc (sensor : String × UInt8) : (sensorDoc sensor).Stored (levels + 2) := by
  refine Doc.stored_obj ?_ (by simp)
  simp only [List.forall_mem_cons, List.not_mem_nil, false_imp_iff, implies_true, and_true]
  exact ⟨Doc.stored_str _, Doc.stored_digits _⟩

theorem stored_targetDoc (t : HdrTarget) : (targetDoc t).Stored (levels + 2) := by
  refine Doc.stored_obj ?_ (by simp)
  simp only [List.forall_mem_cons, List.not_mem_nil, false_imp_iff, implies_true, and_true]
  exact ⟨Doc.stored_str _, Doc.stored_digits _, Doc.stored_bool _, Doc.stored_bool _⟩

theorem stored_hdrErrorDoc (error : Option String) : (hdrErrorDoc error).Stored (levels + 1) := by
  cases error with
  | none => exact Doc.stored_null
  | some e => exact Doc.stored_str e

theorem stored_displayJson (sample : DisplaySample) (stamp : ClockStamp)
    (tStartMs tEndMs : UInt64) : (displayJson sample stamp tStartMs tEndMs).Stored 5 := by
  have hdisplays : (Doc.arr (sample.displays.map (displayDoc (wmiFailed sample)))).Stored 4 :=
    Doc.stored_map fun d _ => stored_displayDoc _ d
  have hsensors : (Doc.arr (sample.unmatchedSensors.map sensorDoc)).Stored 4 :=
    Doc.stored_map fun u _ => stored_sensorDoc u
  have htargets : (Doc.arr (sample.hdr.map targetDoc)).Stored 4 :=
    Doc.stored_map fun t _ => stored_targetDoc t
  have hchanges : (Doc.arr (sample.changes.map Doc.str)).Stored 4 :=
    Doc.stored_map fun c _ => Doc.stored_str c
  refine Doc.stored_obj ?_ (by simp [displayMembers])
  simp only [displayMembers, List.forall_mem_cons, List.not_mem_nil, false_imp_iff, implies_true,
    and_true]
  exact ⟨Doc.stored_str _, Doc.stored_digits _, Doc.stored_digits _, Doc.stored_digits _,
    Doc.stored_digits _, hdisplays, hsensors, htargets, stored_hdrErrorDoc _, hchanges⟩

theorem reads_displayJson (sample : DisplaySample) (stamp : ClockStamp)
    (tStartMs tEndMs : UInt64) : (displayJson sample stamp tStartMs tEndMs).Reads 5 :=
  (stored_displayJson sample stamp tStartMs tEndMs).1

end Reads

/-! ## The line is loaded -/

/-- The brightness of a display as the loader has it. -/
def loadedBrightness (failed : Bool) (stamp : ClockStamp) (brightness : Option UInt8) :
    Telemetry Binary64 :=
  loadedReading (optReading .measured (brightnessReason failed)
    (brightness.map fun b => .ofNat b.toNat)) (brightnessKind failed) "display" stamp

def loadedEntry (failed : Bool) (stamp : ClockStamp) (d : DisplayInfo) : DisplayEntry where
  name := d.name
  primary := d.primary
  width := some d.width
  height := some d.height
  freqHz := some d.freqHz
  bpp := some d.bpp
  brightness := loadedBrightness failed stamp d.brightness

def loadedTarget (t : HdrTarget) : HdrTargetRec :=
  ⟨targetText t, t.targetId, t.supported, t.enabled⟩

theorem loadDisplayEntry_displayDoc (failed : Bool) (stamp : ClockStamp) (d : DisplayInfo) :
    loadDisplayEntry stamp (displayDoc failed d).value = .ok (loadedEntry failed stamp d) := by
  have hbrightness : ev (displayDoc failed d).value "brightness_pct" "display" stamp =
      .ok (loadedBrightness failed stamp d.brightness) := by
    have hget : (displayDoc failed d).value.get "brightness_pct" =
        some (brightnessDoc failed d.brightness).value := rfl
    refine ev_jsonNum hget (by decide) ?_ "display" stamp
    cases failed <;> decide
  have hnumber : ∀ (key : String) (n : UInt32),
      (displayDoc failed d).value.numAt key = some (ofU32 n) →
        ((displayDoc failed d).value.numAt key).map asU32 = some n := by
    intro key n hkey
    rw [hkey, Option.map_some, asU32_ofU32]
  rw [loadDisplayEntry, hbrightness, hnumber "width" d.width rfl, hnumber "height" d.height rfl,
    hnumber "freq_hz" d.freqHz rfl, hnumber "bpp" d.bpp rfl]
  rfl

theorem loadHdrTarget_targetDoc (t : HdrTarget) :
    loadHdrTarget (targetDoc t).value = loadedTarget t := by
  have htarget : (targetDoc t).value.numAt "target" = some (ofU32 t.targetId) := rfl
  rw [loadHdrTarget, htarget, Option.getD_some, asU32_ofU32]
  rfl

section Line

variable (sample : DisplaySample) (stamp : ClockStamp) (tStartMs tEndMs : UInt64)

/-- A sample as the loader has it. -/
def loadedDisplay (at_ : ClockStamp) (window : Window) : DisplayPoint where
  t := seconds at_.monoMillis
  window := window
  brightness := ((sample.displays.map (loadedEntry (wmiFailed sample) at_)).head?.map
    DisplayEntry.brightness).getD (missing "no displays listed" "display" at_)
  displays := sample.displays.map (loadedEntry (wmiFailed sample) at_)
  unmatchedSensors := sample.unmatchedSensors.map fun u => (u.1, some (.ofNat u.2.toNat))
  hdrTargets := sample.hdr.map loadedTarget
  hdrError := sample.hdrError
  changes := sample.changes

theorem loadDisplay_displayJson (s : SessionData) (at_ : ClockStamp) :
    loadDisplay (displayJson sample stamp tStartMs tEndMs).value at_ s =
      .ok { s with display := s.display ++ [loadedDisplay sample at_
        (windowOf (displayJson sample stamp tStartMs tEndMs).value)] } := by
  have hdisplays : ((displayJson sample stamp tStartMs tEndMs).value.arrAt "displays").getD [] =
      (sample.displays.map (displayDoc (wmiFailed sample))).map Doc.value := arrAt_arr rfl
  have hload : ((sample.displays.map (displayDoc (wmiFailed sample))).map Doc.value).mapM
      (loadDisplayEntry at_) =
        (.ok (sample.displays.map (loadedEntry (wmiFailed sample) at_)) : Except Fault _) := by
    rw [List.map_map]
    exact mapM_map_ok fun d _ => loadDisplayEntry_displayDoc _ at_ d
  have hsensors : ((displayJson sample stamp tStartMs tEndMs).value.arrAt
      "unmatched_sensors").getD [] = (sample.unmatchedSensors.map sensorDoc).map Doc.value :=
    arrAt_arr rfl
  have hloaded : ((sample.unmatchedSensors.map sensorDoc).map Doc.value).map (fun u =>
      ((u.strAt "instance").getD "", u.numAt "brightness")) =
        sample.unmatchedSensors.map fun u => (u.1, some (.ofNat u.2.toNat)) := by
    rw [List.map_map, List.map_map]
    rfl
  have htargets : ((displayJson sample stamp tStartMs tEndMs).value.arrAt
      "hdr_targets").getD [] = (sample.hdr.map targetDoc).map Doc.value := arrAt_arr rfl
  have hhdr : ((sample.hdr.map targetDoc).map Doc.value).map loadHdrTarget =
      sample.hdr.map loadedTarget := by
    rw [List.map_map, List.map_map]
    exact List.map_congr_left fun t _ => loadHdrTarget_targetDoc t
  have herror : (displayJson sample stamp tStartMs tEndMs).value.strAt "hdr_error" =
      sample.hdrError := by
    have hget : (displayJson sample stamp tStartMs tEndMs).value.get "hdr_error" =
        some (hdrErrorDoc sample.hdrError).value := rfl
    rw [JVal.strAt, hget]
    cases sample.hdrError <;> rfl
  have hchanges : strList (displayJson sample stamp tStartMs tEndMs).value "changes" =
      sample.changes := by
    have hitems : ((displayJson sample stamp tStartMs tEndMs).value.arrAt "changes").getD [] =
        (sample.changes.map Doc.str).map Doc.value := arrAt_arr rfl
    rw [strList, hitems, List.map_map, List.filterMap_map]
    exact List.filterMap_some
  rw [loadDisplay, hdisplays, hload, hsensors, hloaded, htargets, hhdr, herror, hchanges]
  rfl

end Line

end PowerForensics.Collectors
