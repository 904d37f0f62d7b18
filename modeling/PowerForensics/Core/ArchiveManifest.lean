import PowerForensics.Core.Archive

/-! # The manifest of an archive

The manifest holds the table of all series, the identities of adapters, processes and
interfaces, the history of the power policy, the battery and the footer. Every name in it
is escaped by the helper that trims quotes.
-/

namespace PowerForensics.Archive

open Json Session FirstSeen

/-- What the writer knows beside the session: the machine, and the hash of the label, the wall
base and the number of records. -/
structure Host where
  machineId : String
  sourceHash : String → UInt64 → Nat → UInt64

/-- Sixteen hexadecimal digits. -/
def hex16 (n : UInt64) : String :=
  .ofList ((List.range 16).reverse.map fun i => hexChar (n.toNat / 16 ^ i % 16))

def optDoc {α : Type} (doc : α → Doc) : Option α → Doc
  | some a => doc a
  | none => .null

def u64Doc (n : UInt64) : Doc := .digits n.toNat

def u32Doc (n : UInt32) : Doc := .digits n.toNat

/-- A reading in the manifest: an envelope without a kind on present values. -/
def telemetryToJson (v : Telemetry Binary64) : Doc :=
  match v.value with
  | .unavailable r =>
      .obj [("v", .null), ("p", .quoted "unavailable"),
        ("k", .digits (v.unavailKind.getD .notSampled).code.toNat),
        ("q", .digits v.quality.code.toNat), ("reason", .quoted r)]
  | .measured x => present x
  | .derived x => present x
  | .estimated x => present x
where
  present (x : Binary64) : Doc :=
    .obj [("v", .shown x), ("p", .quoted v.value.provenance.asStr),
      ("q", .digits v.quality.code.toNat)]

def seriesDoc (id : Nat) (series : Key) (unit : String) : Doc :=
  .obj [("id", .digits id), ("collector", .quoted series.collector),
    ("metric", .quoted series.metric), ("unit", .quoted unit), ("extra", .quoted series.extra)]

/-- The table of all series: the fixed ones, then the others. -/
def metricDocs (tbl : DynTable) : List Doc :=
  staticMetrics.zipIdx.map (fun (m, i) => seriesDoc i ⟨m.1, m.2.1, ""⟩ m.2.2) ++
    tbl.entries.map fun d => seriesDoc d.id.toNat d.series d.unit

def gpuDoc (g : String × Bool) : Doc := .obj [("name", .quoted g.1), ("discrete", .bool g.2)]

/-- A text split at the first occurrence of a character. -/
def splitOnce (c : Char) (s : String) : Option (String × String) :=
  match s.toList.span (· ≠ c) with
  | (left, _ :: right) => some (.ofList left, .ofList right)
  | (_, []) => none

/-- An unsigned integer of 32 bits in decimal, with an optional plus. -/
def parseU32 (s : String) : Option UInt32 :=
  let cs := match s.toList with
    | '+' :: cs => cs
    | cs => cs
  let n := Nat.ofDigitChars 10 cs 0
  if cs ≠ [] ∧ cs.all Char.isDigit ∧ n < 2 ^ 32 then some (.ofNat n) else none

/-- The pid and the name in the key of a process. -/
def procIdentity (extra : String) : UInt32 × String :=
  let parts := splitOnce ':' extra
  ((parseU32 ((parts.map Prod.fst).getD "0")).getD 0, (parts.map Prod.snd).getD extra)

/-- The identity of a process joins its key with what was seen first of its pid. -/
def procDoc (pids : List ProcEntry) (d : DynEntry) : Doc :=
  let identity := procIdentity d.series.extra
  let seen := pids.find? fun e => e.pid = identity.1
  .obj [("metric_id", .digits d.id.toNat), ("pid", u32Doc identity.1), ("name", .quoted identity.2),
    ("ppid", u32Doc ((seen.map ProcEntry.ppid).getD 0)),
    ("start_unix_ms", optDoc u64Doc (seen.bind ProcEntry.startUnixMs)),
    ("exit_unix_ms", optDoc u64Doc (seen.bind ProcEntry.exitUnixMs))]

def procDocs (tbl : DynTable) (s : SessionData) : List Doc :=
  (tbl.entries.filter fun d => d.series.collector = "proc").map (procDoc (procPids s))

/-- The interfaces of a session by their aliases, as they were seen first. -/
def netIdent (s : SessionData) : List NetAdapterRec :=
  firstSeen NetAdapterRec.aliasName (s.net.flatMap NetPoint.adapters)

def netDoc (a : NetAdapterRec) : Doc :=
  .obj [("alias", .quoted a.aliasName), ("descr", .quoted a.descr), ("class", .quoted a.className),
    ("iftype", .quoted a.iftype)]

def wifiIdent (s : SessionData) : List WifiRec :=
  firstSeen WifiRec.descr (s.net.flatMap NetPoint.wifi)

def wifiDoc (w : WifiRec) : Doc := .obj [("descr", .quoted w.descr), ("ssid", .quoted w.ssid)]

/-- The readings of a policy under their names in the manifest. -/
def policyReadings (p : Policy) : List (String × Telemetry Binary64) :=
  [("timer_resolution", p.timerResolution), ("cpu_min_ac", p.cpuMinAc), ("cpu_min_dc", p.cpuMinDc),
    ("cpu_max_ac", p.cpuMaxAc), ("cpu_max_dc", p.cpuMaxDc), ("epp_ac", p.eppAc),
    ("epp_dc", p.eppDc), ("brightness_ac", p.brightnessAc), ("brightness_dc", p.brightnessDc),
    ("display_timeout_ac", p.displayTimeoutAc), ("display_timeout_dc", p.displayTimeoutDc),
    ("sleep_timeout_ac", p.sleepTimeoutAc), ("sleep_timeout_dc", p.sleepTimeoutDc),
    ("hibernate_timeout_ac", p.hibernateTimeoutAc), ("hibernate_timeout_dc", p.hibernateTimeoutDc),
    ("low_batt_ac", p.lowBattAc), ("low_batt_dc", p.lowBattDc), ("crit_batt_ac", p.critBattAc),
    ("crit_batt_dc", p.critBattDc)]

def policyDoc (entry : Binary64 × Policy) : Doc :=
  .obj ([("t", .fixed 3 entry.1), ("scheme", optDoc .quoted entry.2.schemeName),
      ("scheme_guid", optDoc .quoted entry.2.schemeGuid),
      ("snapshot_wall_ms", optDoc u64Doc entry.2.policySnapshotWallMs)] ++
    (policyReadings entry.2).map fun r => (r.1, telemetryToJson r.2))

def batteryEntryDoc (e : BatteryStaticEntry) : Doc :=
  .obj [("index", u32Doc e.index), ("designed_mwh", optDoc .shown e.designedMwh),
    ("full_mwh", optDoc .shown e.fullMwh), ("cycle_count", optDoc u32Doc e.cycleCount),
    ("chemistry", .quoted (e.chemistry.getD "")), ("device_name", .quoted (e.deviceName.getD "")),
    ("unique_id", .quoted (e.uniqueId.getD "")), ("technology", optDoc u32Doc e.technology),
    ("capabilities", optDoc u32Doc e.capabilities),
    ("temperature_raw", optDoc u32Doc e.temperatureRaw), ("mfg_name", .quoted (e.mfgName.getD "")),
    ("mfg_date", .quoted (e.mfgDate.getD "")), ("designed_prov", .quoted e.designProv),
    ("full_prov", .quoted e.fullProv)]

def batteryDoc (b : BatteryMeta) : Doc :=
  .obj [("full_mwh", optDoc .shown b.fullMwh), ("design_mwh", optDoc .shown b.designMwh),
    ("index", optDoc u32Doc b.batteryIndex), ("count", optDoc u32Doc b.batteryCount),
    ("full_prov", .quoted b.fullProv), ("design_prov", .quoted b.designProv),
    ("batteries", .arr (b.batteries.map batteryEntryDoc))]

def limitations : JVal :=
  .arr [.str "gpu awake confidence/evidence and display/usb change text are presentation-only",
    .str "wifi SSID and adapter descriptions are archived as identity tables, not per-tick"]

def manifestDoc (host : Host) (label source : String) (s : SessionData) : Doc :=
  let tbl := dynTable s
  .obj [("tool", .quoted "power-forensics"), ("tool_version", .quoted "0.1.0"),
    ("machine_id", .quoted host.machineId),
    ("source_hash", .quoted (hex16 (host.sourceHash label s.wallBaseMs (samples tbl s).length))),
    ("format", .quoted "pf-archive-2"), ("schema", .digits 1), ("label", .quoted label),
    ("source", .quoted source), ("wall_base_ms", u64Doc s.wallBaseMs),
    ("metrics", .arr (metricDocs tbl)), ("gpu_adapters", .arr ((gpuNames s).map gpuDoc)),
    ("proc_identity", .arr (procDocs tbl s)), ("net_adapters", .arr ((netIdent s).map netDoc)),
    ("wifi_identity", .arr ((wifiIdent s).map wifiDoc)),
    ("policy_history", .arr (s.policyHistory.map policyDoc)),
    ("battery", batteryDoc s.batteryMeta), ("footer", optDoc .printed s.footer),
    ("limitations", .printed limitations)]

def eventDoc (e : EventRec) : Doc :=
  .obj [("type", .quoted "event"), ("wall_ms", u64Doc e.wallMs), ("mono_ms", u64Doc e.monoMs),
    ("kind", .quoted e.kind), ("detail", .quoted e.detail)]

structure ArchiveData where
  manifest : String
  samples : List UInt8
  events : List String
  records : Nat

/-- Migrate a session into an archive. -/
def migrate (host : Host) (label source : String) (s : SessionData) : ArchiveData where
  manifest := .ofList (manifestDoc host label source s).text
  samples := (samples (dynTable s) s).flatMap fun x => putRec (x.toRec s.wallBaseMs)
  events := s.events.map fun e => .ofList (eventDoc e).text
  records := (samples (dynTable s) s).length

end PowerForensics.Archive
