import PowerForensics.Collectors.Battery
import PowerForensics.Core.HeadedLine

/-! # Battery metadata of a session

The metadata of a session is filled in by its first battery record. What the interfaces
reported comes back, entry by entry, and the first entry also has what the line says at its
top level, but never the capabilities.
-/

namespace PowerForensics.Session

open Json

/-! ## Records of other collectors -/

def SessionData.withMeta (s : SessionData) (bm : BatteryMeta) : SessionData :=
  { s with batteryMeta := bm }

/-- A loader of another collector carries the battery metadata over. -/
theorem collectorLoader_withMeta (v : JVal) (s : SessionData) (bm : BatteryMeta)
    (stamp : ClockStamp) {collector : String}
    {load : JVal → ClockStamp → SessionData → Except Fault SessionData}
    (hload : collectorLoader collector = some load) (hother : collector ≠ "battery") :
    load v stamp (s.withMeta bm) = (·.withMeta bm) <$> load v stamp s := by
  cases hload using collectorLoader_cases with
  | battery => exact absurd rfl hother
  | cpu => simp [loadCpu, map_bind, SessionData.withMeta]
  | gpu => simp [loadGpu, SessionData.withMeta]
  | procs => simp [loadProcs, SessionData.withMeta]
  | display => simp [loadDisplay, SessionData.withMeta]
  | net => simp [loadNet, map_bind, SessionData.withMeta]
  | storage => simp [loadStorage, map_bind, SessionData.withMeta]
  | usb => simp [loadUsb, SessionData.withMeta]
  | selfmon => simp [loadSelfmon, map_bind, SessionData.withMeta]
  | policy => simp [loadPolicy, addPolicy, map_bind, SessionData.withMeta]

theorem collectorLoader_batteryMeta {v : JVal} {s s' : SessionData} {stamp : ClockStamp}
    {collector : String} {load : JVal → ClockStamp → SessionData → Except Fault SessionData}
    (hload : collectorLoader collector = some load) (hother : collector ≠ "battery")
    (hs' : load v stamp s = .ok s') : s'.batteryMeta = s.batteryMeta := by
  have hcarried := collectorLoader_withMeta v s s.batteryMeta stamp hload hother
  rw [show s.withMeta s.batteryMeta = s from rfl, hs'] at hcarried
  have hsame : Except.ok s' = (Except.ok (s'.withMeta s.batteryMeta) : Except Fault _) := hcarried
  have heq := congrArg SessionData.batteryMeta (Except.ok.inj hsame)
  exact heq

theorem loadRecord_batteryMeta {v : JVal} {s s' : SessionData}
    (hother : v.strAt "collector" ≠ some "battery") (hs' : loadRecord v s = .ok s') :
    s'.batteryMeta = s.batteryMeta := by
  have hwall : ∀ r : SessionData, (if r.wallBaseMs = 0 then { r with wallBaseMs := wallMs v }
      else r).batteryMeta = r.batteryMeta := by
    intro r
    split <;> rfl
  unfold loadRecord at hs'
  rw [← hwall s]
  revert hs'
  generalize (if s.wallBaseMs = 0 then { s with wallBaseMs := wallMs v } else s) = r
  intro hs'
  dsimp only at hs'
  split at hs'
  next load hload =>
    obtain ⟨collector, hcollector, hload⟩ := Option.bind_eq_some_iff.mp hload
    refine collectorLoader_batteryMeta hload ?_ hs'
    rintro rfl
    exact hother hcollector
  next =>
    split at hs'
    · obtain rfl := Except.ok.inj hs'
      rfl
    split at hs'
    · obtain rfl := Except.ok.inj hs'
      rfl
    · obtain rfl := Except.ok.inj hs'
      rfl

/-- The line is a record of the battery collector. -/
def IsBatteryLine (line : List Char) : Prop :=
  ∃ v, parse (String.ofList (Lines.trim line)) = .ok v ∧ v.strAt "collector" = some "battery"

theorem loadLines_batteryMeta {number : Nat} {ls : List (List Char)} {s s' : SessionData}
    (hls : ∀ line ∈ ls, ¬ IsBatteryLine line) (hs' : loadLines number ls s = .ok s') :
    s'.batteryMeta = s.batteryMeta := by
  induction ls generalizing number s with
  | nil =>
      obtain rfl := Except.ok.inj hs'
      rfl
  | cons line ls ih =>
      obtain ⟨hline, hls⟩ := List.forall_mem_cons.mp hls
      rw [loadLines] at hs'
      split at hs'
      · exact ih hls hs'
      · split at hs'
        · cases hs'
        next v hparse =>
          split at hs'
          · cases hs'
          next r hr =>
            rw [ih hls hs']
            exact loadRecord_batteryMeta (fun h => hline ⟨v, hparse, h⟩) hr

/-! ## The record of the battery -/

theorem loadBattery_batteryMeta {v : JVal} {stamp : ClockStamp} {s s' : SessionData}
    (hs' : loadBattery v stamp s = .ok s') : s'.batteryMeta = loadBatteryMeta v s.batteryMeta := by
  simp only [loadBattery, bind_eq_ok] at hs'
  obtain ⟨_, _, _, _, _, _, _, _, _, _, _, _, _, _, _, _, hs'⟩ := hs'
  obtain rfl := Except.ok.inj hs'
  rfl

theorem loadRecord_battery {v : JVal} {s s' : SessionData}
    (hcollector : v.strAt "collector" = some "battery") (hs' : loadRecord v s = .ok s') :
    s'.batteryMeta = loadBatteryMeta v s.batteryMeta := by
  have hload : (v.strAt "collector").bind collectorLoader = some loadBattery := by
    rw [hcollector]
    rfl
  unfold loadRecord at hs'
  simp only [hload] at hs'
  rw [loadBattery_batteryMeta hs']
  split <;> rfl

/-- Where no interface is known, those of the record become known. -/
theorem batteries_loadBatteryMeta (v : JVal) {bm : BatteryMeta} (hnone : bm.batteries = []) :
    (loadBatteryMeta v bm).batteries =
      match ((v.arrAt "batteries").getD []).map loadBatteryEntry with
      | [] => []
      | first :: rest => completeFirst v first :: rest := by
  cases hentries : ((v.arrAt "batteries").getD []).map loadBatteryEntry with
  | nil =>
      simp only [loadBatteryMeta, apply_ite BatteryMeta.batteries, hnone, ite_self, hentries]
  | cons first rest =>
      simp only [loadBatteryMeta, apply_ite BatteryMeta.batteries, hnone, ite_self,
        List.isEmpty_nil, if_true, hentries]

end PowerForensics.Session

namespace PowerForensics.Collectors

open Json Session

/-! ## What should come back -/

/-- An entry of the metadata has what its interface reported, and no more. -/
structure EntryKept (entry : Nat × BatteryStatic) (e : BatteryStaticEntry) : Prop where
  index : e.index.toNat = entry.1
  designedMwh : e.designedMwh = entry.2.designedMwh.map ofU32
  fullMwh : e.fullMwh = entry.2.fullMwh.map ofU32
  cycleCount : e.cycleCount = entry.2.cycleCount
  chemistry : e.chemistry = entry.2.chemistry
  deviceName : e.deviceName = entry.2.deviceName
  uniqueId : e.uniqueId = entry.2.uniqueId

/-- The first entry also has what the line says at its top level. -/
structure PrimaryKept (b : BatteryStatic) (e : BatteryStaticEntry) : Prop where
  technology : e.technology = b.technology.map UInt8.toUInt32
  capabilities : e.capabilities = b.capabilities
  temperatureRaw : e.temperatureRaw = b.temperatureRaw
  mfgName : e.mfgName = b.mfgName
  mfgDate : e.mfgDate = b.mfgDate.map dateText

def MetadataKept (statics : List (Nat × BatteryStatic)) (bm : BatteryMeta) : Prop :=
  List.Forall₂ EntryKept statics bm.batteries ∧
    ∀ entry ∈ statics.head?, ∀ e ∈ bm.batteries.head?, PrimaryKept entry.2 e

/-- Every text that the interface reports is not empty. -/
def BatteryStatic.TextsFilled (b : BatteryStatic) : Prop :=
  ∀ text ∈ [b.chemistry, b.deviceName, b.uniqueId, b.mfgName], text ≠ some ""

/-! ## Entries -/

theorem nonEmpty_of_ne {o : Option String} (ho : o ≠ some "") : nonEmpty o = o := by
  cases o with
  | none => rfl
  | some s =>
      have hs : s ≠ "" := fun h => ho (congrArg some h)
      simp [nonEmpty, hs]

theorem dateText_ne_empty (date : UInt16 × UInt8 × UInt8) : dateText date ≠ "" := by
  intro h
  have hchars := congrArg String.toList h
  simp [dateText] at hchars

theorem nonEmpty_dateText (o : Option (UInt16 × UInt8 × UInt8)) :
    nonEmpty (o.map dateText) = o.map dateText := by
  apply nonEmpty_of_ne
  cases o with
  | none => nofun
  | some date => exact fun h => dateText_ne_empty date (Option.some.inj h)

section Entry

variable (entry : Nat × BatteryStatic)

/-- The entry that is read from what is written of an interface. -/
theorem loadBatteryEntry_static :
    loadBatteryEntry (staticDoc entry).value =
      { index := asU32 (.ofNat entry.1)
        designedMwh := entry.2.designedMwh.map ofU32
        fullMwh := entry.2.fullMwh.map ofU32
        cycleCount := entry.2.cycleCount
        chemistry := nonEmpty entry.2.chemistry
        deviceName := nonEmpty entry.2.deviceName
        uniqueId := nonEmpty entry.2.uniqueId
        technology := none
        capabilities := none
        temperatureRaw := none
        mfgName := none
        mfgDate := none
        designProv := provOf (staticDoc entry).value "designed_mwh"
        fullProv := provOf (staticDoc entry).value "full_mwh" } := by
  simp only [loadBatteryEntry, JVal.numIn, JVal.strIn, staticDoc,
    Doc.get_obj, Doc.get_nil, reduceIte, String.reduceEq, Option.bind_some, Option.bind_none,
    optU32, optStr, Doc.numAt_jsonNum, Doc.strAt_jsonStr, map_asU32_ofU32, Option.map_none]
  rfl

variable {entry}

theorem entryKept_static (hindex : entry.1 < 2 ^ 32) (htexts : entry.2.TextsFilled) :
    EntryKept entry (loadBatteryEntry (staticDoc entry).value) := by
  rw [loadBatteryEntry_static]
  have hfilled : ∀ text ∈ [entry.2.chemistry, entry.2.deviceName, entry.2.uniqueId,
      entry.2.mfgName], nonEmpty text = text := fun text htext => nonEmpty_of_ne (htexts text htext)
  exact ⟨toNat_asU32_ofNat hindex, rfl, rfl, rfl, hfilled _ (by simp), hfilled _ (by simp),
    hfilled _ (by simp)⟩

end Entry

/-- What the line says about the first interface leaves the rest of its entry alone. -/
theorem EntryKept.completeFirst {entry : Nat × BatteryStatic} {e : BatteryStaticEntry}
    (h : EntryKept entry e) (v : JVal) : EntryKept entry (completeFirst v e) :=
  ⟨h.index, h.designedMwh, h.fullMwh, h.cycleCount, h.chemistry, h.deviceName, h.uniqueId⟩

/-! ## The line -/

section Line

variable (raw : BatteryRaw) (statics : List (Nat × BatteryStatic)) (interfaces : Nat)
  (stamp : ClockStamp) (tStartMs tEndMs : UInt64)

theorem strAt_collector :
    (batteryJson raw statics interfaces stamp tStartMs tEndMs).value.strAt "collector" =
      some "battery" := rfl

theorem arrAt_batteries :
    (batteryJson raw statics interfaces stamp tStartMs tEndMs).value.arrAt "batteries" =
      some (statics.map fun entry => (staticDoc entry).value) := by
  have hget : (batteryJson raw statics interfaces stamp tStartMs tEndMs).value.get "batteries" =
      some (Doc.arr (statics.map staticDoc)).value := by
    simp only [batteryJson, batteryMembers, Doc.get_obj, reduceIte, String.reduceEq]
  rw [JVal.arrAt, hget, Option.bind_some, Doc.value_arr, List.map_map]
  rfl

/-- What the line says at its top level; a string is no number. -/
theorem topLevel (entry : Nat × BatteryStatic) (rest : List (Nat × BatteryStatic)) :
    let v := (batteryJson raw (entry :: rest) interfaces stamp tStartMs tEndMs).value
    (v.numIn "technology").map asU32 = entry.2.technology.map UInt8.toUInt32 ∧
      (v.numIn "capabilities").map asU32 = none ∧
      (v.numIn "temperature_raw").map asU32 = entry.2.temperatureRaw ∧
      v.strIn "mfg_name" = entry.2.mfgName ∧ v.strIn "mfg_date" = entry.2.mfgDate.map dateText := by
  simp only [JVal.numIn, JVal.strIn, batteryJson, batteryMembers, Doc.get_obj, reduceIte,
    String.reduceEq, Option.bind_some, optU32, optHex, optStr, Doc.numAt_jsonNum,
    Doc.numAt_jsonStr, Doc.strAt_jsonStr, map_asU32_ofU32, List.head?_cons, Option.map_some,
    Option.map_none, and_self]

/-- The first entry has everything that belongs to it, except for the capabilities. -/
theorem primaryKept_iff {entry : Nat × BatteryStatic} (htexts : entry.2.TextsFilled)
    (rest : List (Nat × BatteryStatic)) :
    PrimaryKept entry.2
        (completeFirst (batteryJson raw (entry :: rest) interfaces stamp tStartMs tEndMs).value
          (loadBatteryEntry (staticDoc entry).value)) ↔
      entry.2.capabilities = none := by
  obtain ⟨htechnology, hcapabilities, htemperature, hname, hdate⟩ :=
    topLevel raw interfaces stamp tStartMs tEndMs entry rest
  have hfilled : nonEmpty entry.2.mfgName = entry.2.mfgName :=
    nonEmpty_of_ne (htexts _ (by simp))
  rw [loadBatteryEntry_static]
  constructor
  · intro hkept
    rw [← hkept.capabilities]
    simpa [completeFirst] using hcapabilities
  · intro hnone
    refine ⟨?_, ?_, ?_, ?_, ?_⟩
    · simpa [completeFirst] using htechnology
    · simpa [completeFirst, hnone] using hcapabilities
    · simpa [completeFirst] using htemperature
    · simpa [completeFirst, hname] using hfilled
    · simpa [completeFirst, hdate] using nonEmpty_dateText entry.2.mfgDate

/-- A reason that the loader keeps of the snapshot. -/
def BatteryRaw.Gives (raw : BatteryRaw) (reason : String) : Prop :=
  raw.acConnected = .unavailable reason ∨ raw.chargePercent = .unavailable reason ∨
    raw.remainingCapacityMwh = .unavailable reason ∨ raw.rateMw = .unavailable reason

/-- Every reason of the snapshot is short, or cut between two characters. -/
def BatteryRaw.ReasonsFit (raw : BatteryRaw) : Prop :=
  ∀ reason, raw.Gives reason → (truncate reasonLimit reason.toList).isSome

variable {raw}

theorem keepable_derivedPower (hrate : ∀ reason, raw.rateMw = .unavailable reason →
      (truncate reasonLimit reason.toList).isSome)
    {watts : Int32 → Option Binary64} {idle : String}
    (hidle : (truncate reasonLimit idle.toList).isSome) (kind : UnavailKind) :
    Keepable (some (Doc.readingNum .shown (derivedPower raw.rateMw watts idle) kind).value) := by
  rw [Doc.keepable_readingNum]
  intro reason hreason
  rcases derivedPower_cases raw.rateMw watts idle with ⟨r, w, -, heq⟩ | ⟨reason', heq, hcases⟩
  · rw [heq] at hreason
    cases hreason
  · rw [heq] at hreason
    obtain rfl := Reading.unavailable.inj hreason
    rcases hcases with rfl | rfl | hsame
    · exact hidle
    · exact truncate_reason_isSome (by decide)
    · exact hrate _ hsame

theorem keepable_health (primary : Option BatteryStatic) (kind : UnavailKind) :
    Keepable (some (Doc.readingNum .shown (healthOf primary) kind).value) := by
  rw [Doc.keepable_readingNum]
  intro reason hreason
  rcases healthOf_cases primary with ⟨full, design, heq⟩ | heq
  · rw [heq] at hreason
    generalize healthRatio _ _ = ratio at hreason
    cases ratio with
    | some h => cases hreason
    | none =>
        obtain rfl := Reading.unavailable.inj hreason
        exact truncate_reason_isSome (by decide)
  · rw [heq] at hreason
    obtain rfl := Reading.unavailable.inj hreason
    exact truncate_reason_isSome (by decide)

/-- A truth value is no envelope to be read; the lack of one is. -/
theorem boolEnvelope_ac :
    boolEnvelope (batteryJson raw statics interfaces stamp tStartMs tEndMs).value "ac" =
      match raw.acConnected with
      | .unavailable reason => [some (Doc.absent .transientError reason).value]
      | _ => [] := by
  have hget : (batteryJson raw statics interfaces stamp tStartMs tEndMs).value.get "ac" =
      some (Doc.readingNum .bool raw.acConnected .transientError).value := by
    simp only [batteryJson, batteryMembers, Doc.get_obj, reduceIte, String.reduceEq]
  rw [boolEnvelope, hget]
  cases raw.acConnected <;> rfl

theorem keepable_ac :
    (∀ inner ∈ boolEnvelope (batteryJson raw statics interfaces stamp tStartMs tEndMs).value "ac",
      Keepable inner) ↔
      ∀ reason, raw.acConnected = .unavailable reason →
        (truncate reasonLimit reason.toList).isSome := by
  rw [boolEnvelope_ac]
  cases raw.acConnected with
  | unavailable reason => simp [Doc.keepable_absent]
  | measured b => simp
  | derived b => simp
  | estimated b => simp

/-- The record is loaded exactly if the reasons of the snapshot can be kept. -/
theorem reasonsKeepable_iff :
    ReasonsKeepable (batteryJson raw statics interfaces stamp tStartMs tEndMs).value ↔
      raw.ReasonsFit := by
  have hnot : (truncate reasonLimit notReported.toList).isSome :=
    truncate_reason_isSome (by decide)
  have henvelopes : collectorEnvelopes "battery"
      (batteryJson raw statics interfaces stamp tStartMs tEndMs).value =
        batteryEnvelopes (batteryJson raw statics interfaces stamp tStartMs tEndMs).value := rfl
  simp only [ReasonsKeepable, strAt_collector, Option.mem_def, Option.some.injEq, forall_eq',
    henvelopes, batteryEnvelopes, List.forall_mem_append, forall_keyed, keepable_ac]
  simp only [batteryJson, batteryMembers, Doc.get_obj, reduceIte, String.reduceEq,
    List.forall_mem_cons, List.not_mem_nil, false_imp_iff, implies_true, and_true,
    Doc.keepable_readingNum _ raw.remainingCapacityMwh, Doc.keepable_readingNum _ raw.chargePercent,
    Doc.keepable_readingNum _ raw.rateMw]
  constructor
  · rintro ⟨⟨⟨hremaining, -, -, hpct⟩, hac⟩, hrate, -⟩ reason hgives
    rcases hgives with h | h | h | h
    · exact hac reason h
    · exact hpct reason h
    · exact hremaining reason h
    · exact hrate reason h
  · intro hfit
    have hrate : ∀ reason, raw.rateMw = .unavailable reason →
        (truncate reasonLimit reason.toList).isSome :=
      fun reason h => hfit reason (Or.inr (Or.inr (Or.inr h)))
    have hremaining := fun reason h => hfit reason (Or.inr (Or.inr (Or.inl h)))
    have hpct := fun reason h => hfit reason (Or.inr (Or.inl h))
    have hac := fun reason h => hfit reason (Or.inl h)
    exact ⟨⟨⟨hremaining, keepable_derivedPower hrate (truncate_reason_isSome (by decide)) _,
      keepable_derivedPower hrate (truncate_reason_isSome (by decide)) _, hpct⟩, hac⟩, hrate,
      keepable_health _ _, Doc.keepable_envelope _ _ _ hnot⟩

end Line

/-! ## The first battery line of a session -/

/-- A session whose last line is its first battery line. -/
structure FirstBatteryLine (text : String) (before : List (List Char)) (line : List Char) :
    Prop where
  lines : Lines.lines text.toList = before ++ [line]
  loadable : ∀ l ∈ before, Loadable l
  others : ∀ l ∈ before, ¬ IsBatteryLine l

section Session

variable {raw : BatteryRaw} {statics : List (Nat × BatteryStatic)} {interfaces : Nat}
  {stamp : ClockStamp} {tStartMs tEndMs : UInt64} {label text : String}
  {before : List (List Char)}

theorem loadSession_batteryLine (label : String)
    (hfirst : FirstBatteryLine text before
      (batteryJson raw statics interfaces stamp tStartMs tEndMs).text) :
    (loadSession label text).isOk = true ↔ raw.ReasonsFit := by
  rw [loadSession_isOk, hfirst.lines, List.forall_mem_append, List.forall_mem_singleton,
    batteryJson, Doc.loadable_obj (reads_batteryJson raw statics interfaces stamp tStartMs tEndMs)
      (by decide), ← batteryJson, reasonsKeepable_iff]
  exact and_iff_right hfirst.loadable

theorem loadLines_batteryJson (number : Nat) (s : SessionData) :
    loadLines number [(batteryJson raw statics interfaces stamp tStartMs tEndMs).text] s =
      loadRecord (batteryJson raw statics interfaces stamp tStartMs tEndMs).value s :=
  Doc.loadLines_obj (reads_batteryJson raw statics interfaces stamp tStartMs tEndMs) (by decide)
    number s

/-- The interfaces that a session knows behind its first battery line. -/
theorem batteries_batteryLine
    (hfirst : FirstBatteryLine text before
      (batteryJson raw statics interfaces stamp tStartMs tEndMs).text)
    {s : SessionData} (hs : loadSession label text = .ok s) :
    s.batteryMeta.batteries =
      match statics.map fun entry => loadBatteryEntry (staticDoc entry).value with
      | [] => []
      | first :: rest =>
          completeFirst (batteryJson raw statics interfaces stamp tStartMs tEndMs).value first ::
            rest := by
  rw [loadSession, hfirst.lines, loadLines_append] at hs
  cases hbefore : loadLines 1 before { (default : SessionData) with label } with
  | error fault =>
      rw [hbefore] at hs
      cases hs
  | ok r =>
      rw [hbefore] at hs
      have hmeta := loadLines_batteryMeta hfirst.others hbefore
      have hline : loadLines (1 + before.length)
          [(batteryJson raw statics interfaces stamp tStartMs tEndMs).text] r = .ok s := hs
      have hrecord : loadRecord (batteryJson raw statics interfaces stamp tStartMs tEndMs).value r =
          .ok s := by
        rw [← hline, loadLines_batteryJson]
      rw [loadRecord_battery (strAt_collector _ _ _ _ _ _) hrecord, hmeta,
        batteries_loadBatteryMeta _ rfl, arrAt_batteries, Option.getD_some, List.map_map]
      rfl

/-- The line parses, and behind it the session knows every interface as it was reported. -/
def MetadataSurvives (label text : String) (statics : List (Nat × BatteryStatic)) (line : Doc) :
    Prop :=
  (∃ v, parse line.line = .ok v) ∧
    ∃ s, loadSession label text = .ok s ∧ MetadataKept statics s.batteryMeta

theorem metadataKept_iff
    (hfirst : FirstBatteryLine text before
      (batteryJson raw statics interfaces stamp tStartMs tEndMs).text)
    (hindex : ∀ entry ∈ statics, entry.1 < 2 ^ 32)
    (htexts : ∀ entry ∈ statics, entry.2.TextsFilled)
    {s : SessionData} (hs : loadSession label text = .ok s) :
    MetadataKept statics s.batteryMeta ↔
      ∀ entry ∈ statics.head?, entry.2.capabilities = none := by
  rw [MetadataKept, batteries_batteryLine hfirst hs]
  cases statics with
  | nil => simp
  | cons entry rest =>
      have hentries : ∀ e ∈ entry :: rest, EntryKept e (loadBatteryEntry (staticDoc e).value) :=
        fun e he => entryKept_static (hindex e he) (htexts e he)
      obtain ⟨hentry, hrest⟩ := List.forall_mem_cons.mp hentries
      have hall := List.Forall₂.cons
        (hentry.completeFirst
          (batteryJson raw (entry :: rest) interfaces stamp tStartMs tEndMs).value)
        (List.forall₂_map_right_iff.mpr (List.forall₂_same.mpr hrest))
      have hprimary := primaryKept_iff raw interfaces stamp tStartMs tEndMs
        (htexts entry List.mem_cons_self) rest
      simp only [List.map_cons, hall, true_and, List.head?_cons, Option.mem_def,
        Option.some.injEq, forall_eq']
      exact hprimary

/-- Behind its first battery line a session knows every interface as it was reported exactly if
the first one reported no capabilities and every reason of the snapshot can be kept. -/
theorem metadata_survives_iff
    (hfirst : FirstBatteryLine text before
      (batteryJson raw statics interfaces stamp tStartMs tEndMs).text)
    (hindex : ∀ entry ∈ statics, entry.1 < 2 ^ 32)
    (htexts : ∀ entry ∈ statics, entry.2.TextsFilled) :
    MetadataSurvives label text statics
        (batteryJson raw statics interfaces stamp tStartMs tEndMs) ↔
      (∀ entry ∈ statics.head?, entry.2.capabilities = none) ∧ raw.ReasonsFit := by
  have hparse : ∃ v, parse (batteryJson raw statics interfaces stamp tStartMs tEndMs).line = .ok v :=
    ⟨_, Doc.parse_line (reads_batteryJson raw statics interfaces stamp tStartMs tEndMs)
      (by decide)⟩
  rw [MetadataSurvives, and_iff_right hparse, ← loadSession_batteryLine label hfirst]
  constructor
  · rintro ⟨s, hs, hkept⟩
    refine ⟨(metadataKept_iff hfirst hindex htexts hs).mp hkept, ?_⟩
    rw [hs]
    rfl
  · rintro ⟨hcapabilities, hok⟩
    obtain ⟨s, hs⟩ := (exists_eq_ok (loadSession label text)).mpr hok
    exact ⟨s, hs, (metadataKept_iff hfirst hindex htexts hs).mpr hcapabilities⟩

theorem firstBatteryLine_alone (raw : BatteryRaw) (statics : List (Nat × BatteryStatic))
    (interfaces : Nat) (stamp : ClockStamp) (tStartMs tEndMs : UInt64) :
    FirstBatteryLine (batteryJson raw statics interfaces stamp tStartMs tEndMs).line []
      (batteryJson raw statics interfaces stamp tStartMs tEndMs).text where
  lines := by
    rw [Doc.line, String.toList_ofList, Lines.lines_unterminated (Doc.newline_not_mem_text _),
      if_neg (by rw [batteryJson]; exact Doc.text_obj_ne_nil)]
    rfl
  loadable := nofun
  others := nofun

theorem firstBatteryLine_headed (h : Header) (raw : BatteryRaw)
    (statics : List (Nat × BatteryStatic)) (interfaces : Nat) (stamp : ClockStamp)
    (tStartMs tEndMs : UInt64) :
    FirstBatteryLine (headed h (batteryJson raw statics interfaces stamp tStartMs tEndMs))
      [lineText (headerMembers h)]
      (batteryJson raw statics interfaces stamp tStartMs tEndMs).text where
  lines := by
    rw [batteryJson]
    exact lines_headed h _
  loadable := by
    rintro l hl -
    obtain rfl := List.mem_singleton.mp hl
    refine ⟨lineValue (headerMembers h), by rw [trim_lineText, parse_lineText], ?_⟩
    intro collector hcollector
    cases hcollector
  others := by
    rintro l hl ⟨v, hparse, hname⟩
    obtain rfl := List.mem_singleton.mp hl
    rw [trim_lineText, parse_lineText] at hparse
    obtain rfl := Except.ok.inj hparse
    cases hname

/-- A battery with little to say about it. -/
def silentBattery (capabilities : Option UInt32) : BatteryStatic :=
  ⟨none, none, none, none, none, capabilities, none, none, none, none, none⟩

def dischargingRaw : BatteryRaw :=
  ⟨.measured false, .measured 50, true, .measured 37090, .measured 19848, .measured (-6400)⟩

theorem reasonsFit_discharging : dischargingRaw.ReasonsFit := by
  rintro reason (h | h | h | h) <;> cases h

theorem textsFilled_silent (capabilities : Option UInt32) :
    (silentBattery capabilities).TextsFilled := by
  simp [BatteryStatic.TextsFilled, silentBattery]

/-- A battery that is described in full, but for its capabilities. -/
def describedBattery : BatteryStatic :=
  ⟨some 57000, some 50000, some 312, some "LION", some 1, none, some 2982, some "DELL 7VTMN",
    some "LGC", some "LGC-7VTMN-312", some (2021, 4, 9)⟩

/-- Behind a header, a battery that is described and one that has capabilities and a name. -/
theorem metadata_survives_described :
    MetadataSurvives "run"
      (headed ⟨1700000000000, "0.4.0", 1000, "run"⟩ (batteryJson dischargingRaw
        [(0, describedBattery), (1, { silentBattery (some 0x80000000) with deviceName := "slice" })]
        2 default 0 0))
      [(0, describedBattery), (1, { silentBattery (some 0x80000000) with deviceName := "slice" })]
      (batteryJson dischargingRaw
        [(0, describedBattery), (1, { silentBattery (some 0x80000000) with deviceName := "slice" })]
        2 default 0 0) :=
  (metadata_survives_iff (firstBatteryLine_headed _ _ _ _ _ _ _) (by simp)
    (by simp [BatteryStatic.TextsFilled, describedBattery, silentBattery])).mpr
    ⟨by simp [describedBattery], reasonsFit_discharging⟩

/-- An interface that reports its capabilities has none behind the file. -/
theorem capabilities_lost :
    ¬ ∀ (raw : BatteryRaw) (statics : List (Nat × BatteryStatic)) (interfaces : Nat)
      (stamp : ClockStamp) (tStartMs tEndMs : UInt64) (label text : String)
      (before : List (List Char)),
      FirstBatteryLine text before
          (batteryJson raw statics interfaces stamp tStartMs tEndMs).text →
        statics ≠ [] → (∀ entry ∈ statics, entry.1 < 2 ^ 32) →
        (∀ entry ∈ statics, entry.2.TextsFilled) →
        MetadataSurvives label text statics
          (batteryJson raw statics interfaces stamp tStartMs tEndMs) := by
  intro hall
  have htexts : ∀ entry ∈ [(0, silentBattery (some 0x80000000))],
      entry.2.TextsFilled := by
    simpa using textsFilled_silent (some 0x80000000)
  obtain ⟨-, s, hs, hkept⟩ := hall dischargingRaw
    [(0, silentBattery (some 0x80000000))] 1 default 0 0 "" _ []
    (firstBatteryLine_alone _ _ _ _ _ _) (by simp) (by simp) htexts
  have hnone := (metadataKept_iff (firstBatteryLine_alone _ _ _ _ _ _) (by simp) htexts hs).mp hkept
  exact absurd (hnone _ rfl) (by simp [silentBattery])

end Session

end PowerForensics.Collectors
