import PowerForensics.Core.ArchiveStore

/-! # Archives that can be read

The manifest and the event lines are documents; they are read back exactly if none of their
strings ends with a quote, their numbers are finite and the footer is not nested too deep.
The conditions are stated on the session here, one for each part of the manifest.
-/

namespace PowerForensics.Archive

-- the table is a fold over a long list of literals, which no proof here evaluates
seal dynTable

open Json Session FirstSeen Lookup

open Doc (EndsPlain PlainKey)

/-! ## Documents in lists -/

section Lists

variable {α : Type} {f : α → Doc} {l : List α} {levels : Nat}

theorem itemsRead_map :
    Doc.ItemsRead levels (l.map f) ↔ ∀ a ∈ l, (f a).Reads levels := by
  induction l with
  | nil => simp [Doc.ItemsRead]
  | cons a l ih => rw [List.map_cons, Doc.ItemsRead, ih, List.forall_mem_cons]

theorem membersRead_append {members members' : List (String × Doc)} :
    Doc.MembersRead levels (members ++ members') ↔
      Doc.MembersRead levels members ∧ Doc.MembersRead levels members' := by
  induction members with
  | nil => simp [Doc.MembersRead]
  | cons m members ih => rw [List.cons_append, Doc.MembersRead, Doc.MembersRead, ih, and_assoc]

theorem membersRead_map {f : α → String × Doc} :
    Doc.MembersRead levels (l.map f) ↔ ∀ a ∈ l, (f a).2.Reads levels := by
  induction l with
  | nil => simp [Doc.MembersRead]
  | cons a l ih => rw [List.map_cons, Doc.MembersRead, ih, List.forall_mem_cons]

theorem reads_optDoc {o : Option α} :
    (optDoc f o).Reads (levels + 1) ↔ ∀ a ∈ o, (f a).Reads (levels + 1) := by
  cases o <;> simp [optDoc, Doc.Reads]

theorem itemsKeyed_map (hkeyed : ∀ a, (f a).OpensPlain ∧ (f a).Keyed) :
    Doc.ItemsKeyed (l.map f) := by
  induction l with
  | nil => trivial
  | cons a l ih => exact ⟨(hkeyed a).1, (hkeyed a).2, ih⟩

theorem membersKeyed_append {members members' : List (String × Doc)} :
    Doc.MembersKeyed (members ++ members') ↔
      Doc.MembersKeyed members ∧ Doc.MembersKeyed members' := by
  induction members with
  | nil => simp [Doc.MembersKeyed]
  | cons m members ih =>
      rw [List.cons_append, Doc.MembersKeyed, Doc.MembersKeyed, ih, and_assoc, and_assoc]

theorem membersKeyed_map {f : α → String × Doc}
    (hkeyed : ∀ a ∈ l, PlainKey (f a).1 ∧ (f a).2.Keyed) :
    Doc.MembersKeyed (l.map f) := by
  induction l with
  | nil => trivial
  | cons a l ih =>
      obtain ⟨ha, hl⟩ := List.forall_mem_cons.mp hkeyed
      exact ⟨ha.1, ha.2, ih hl⟩

theorem keyed_optDoc (hkeyed : ∀ a, (f a).Keyed) (o : Option α) : (optDoc f o).Keyed := by
  cases o with
  | none => trivial
  | some a => exact hkeyed a

end Lists

theorem plainKey_of_lower {k : String} (hk : (k.toList.head?.any Char.isLower) = true) :
    PlainKey k := by
  cases hcs : k.toList with
  | nil => simp [hcs] at hk
  | cons c cs =>
      rw [hcs] at hk
      exact ⟨c, cs, hcs, hk⟩

/-! ## Keys of the manifest -/

theorem keyed_u64Doc (n : UInt64) : (u64Doc n).Keyed := trivial

theorem keyed_u32Doc (n : UInt32) : (u32Doc n).Keyed := trivial

theorem keyed_shown (x : Binary64) : (Doc.shown x).Keyed := trivial

theorem keyed_quoted (s : String) : (Doc.quoted s).Keyed := trivial

theorem keyed_telemetryToJson (v : Telemetry Binary64) : (telemetryToJson v).Keyed := by
  unfold telemetryToJson
  split <;> simp (disch := decide) [telemetryToJson.present, Doc.Keyed, Doc.MembersKeyed,
    plainKey_of_lower]

theorem keyed_seriesDoc (id : Nat) (series : Key) (unit : String) :
    (seriesDoc id series unit).Keyed := by
  simp (disch := decide) [seriesDoc, Doc.Keyed, Doc.MembersKeyed, plainKey_of_lower]

theorem keyed_procDoc (pids : List ProcEntry) (d : DynEntry) : (procDoc pids d).Keyed := by
  simp (disch := decide) [procDoc, Doc.Keyed, Doc.MembersKeyed, plainKey_of_lower,
    keyed_optDoc keyed_u64Doc]
  exact ⟨trivial, trivial⟩

theorem keyed_policyDoc (entry : Binary64 × Policy) : (policyDoc entry).Keyed := by
  have hreadings : ∀ r ∈ policyReadings entry.2, PlainKey r.1 ∧ (telemetryToJson r.2).Keyed := by
    simp (disch := decide) only [policyReadings, List.forall_mem_cons, List.not_mem_nil,
      keyed_telemetryToJson, plainKey_of_lower, false_imp_iff, implies_true, and_true]
  rw [policyDoc, Doc.Keyed, membersKeyed_append]
  refine ⟨?_, membersKeyed_map hreadings⟩
  simp (disch := decide) [Doc.Keyed, Doc.MembersKeyed, plainKey_of_lower,
    keyed_optDoc keyed_quoted, keyed_optDoc keyed_u64Doc]

theorem keyed_batteryDoc (b : BatteryMeta) : (batteryDoc b).Keyed := by
  have hentries : Doc.ItemsKeyed (b.batteries.map batteryEntryDoc) := by
    apply itemsKeyed_map
    intro e
    simp (disch := decide) [batteryEntryDoc, Doc.OpensPlain, Doc.Keyed, Doc.MembersKeyed,
      plainKey_of_lower, keyed_optDoc keyed_shown, keyed_optDoc keyed_u32Doc, keyed_u32Doc]
  simp (disch := decide) [batteryDoc, Doc.Keyed, Doc.MembersKeyed, plainKey_of_lower,
    keyed_optDoc keyed_shown, keyed_optDoc keyed_u32Doc, hentries]

theorem keyed_manifestDoc (host : Host) (label source : String) (s : SessionData) :
    (manifestDoc host label source s).Keyed := by
  have hprinted : ∀ v, (Doc.printed v).Keyed := fun _ => trivial
  have hmetrics : Doc.ItemsKeyed (metricDocs (dynTable s)) := by
    rw [metricDocs_eq]
    exact itemsKeyed_map fun e => ⟨plainKey_of_lower (by decide), keyed_seriesDoc _ _ _⟩
  have hgpu : Doc.ItemsKeyed ((gpuNames s).map gpuDoc) := by
    apply itemsKeyed_map
    intro g
    simp (disch := decide) [gpuDoc, Doc.OpensPlain, Doc.Keyed, Doc.MembersKeyed, plainKey_of_lower]
  have hproc : Doc.ItemsKeyed (procDocs (dynTable s) s) := by
    rw [procDocs]
    apply itemsKeyed_map
    intro d
    exact ⟨plainKey_of_lower (by decide), keyed_procDoc _ d⟩
  have hnet : Doc.ItemsKeyed ((netIdent s).map netDoc) := by
    apply itemsKeyed_map
    intro a
    simp (disch := decide) [netDoc, Doc.OpensPlain, Doc.Keyed, Doc.MembersKeyed, plainKey_of_lower]
  have hwifi : Doc.ItemsKeyed ((wifiIdent s).map wifiDoc) := by
    apply itemsKeyed_map
    intro w
    simp (disch := decide) [wifiDoc, Doc.OpensPlain, Doc.Keyed, Doc.MembersKeyed, plainKey_of_lower]
  have hpolicy : Doc.ItemsKeyed (s.policyHistory.map policyDoc) := by
    apply itemsKeyed_map
    intro entry
    exact ⟨plainKey_of_lower (by decide), keyed_policyDoc entry⟩
  simp (disch := decide) [manifestDoc, Doc.Keyed, Doc.MembersKeyed, plainKey_of_lower,
    keyed_optDoc hprinted, keyed_u64Doc, hmetrics, hgpu, hproc, hnet, hwifi, hpolicy,
    keyed_batteryDoc]

/-! ## Parts of the manifest that are read -/

/-- A reading that the manifest can hold. -/
def PrintableReading (value : Reading Binary64) : Prop :=
  (∀ x ∈ value.value, x.isFinite) ∧ EndsPlain (absenceReason value)

/-- A policy that the manifest can hold. -/
structure PrintablePolicy (entry : Binary64 × Policy) : Prop where
  time : entry.1.isFinite
  scheme : ∀ name ∈ entry.2.schemeName, EndsPlain name
  guid : ∀ name ∈ entry.2.schemeGuid, EndsPlain name
  readings : ∀ r ∈ policyReadings entry.2, PrintableReading r.2.value

/-- A battery that the manifest can hold. -/
structure PrintableEntry (e : BatteryStaticEntry) : Prop where
  numbers : ∀ number ∈ [e.designedMwh, e.fullMwh], ∀ x ∈ number, x.isFinite
  texts : ∀ text ∈ [e.chemistry, e.deviceName, e.uniqueId, e.mfgName, e.mfgDate],
    EndsPlain (text.getD "")
  words : EndsPlain e.designProv ∧ EndsPlain e.fullProv

structure PrintableBattery (b : BatteryMeta) : Prop where
  numbers : ∀ number ∈ [b.fullMwh, b.designMwh], ∀ x ∈ number, x.isFinite
  words : EndsPlain b.fullProv ∧ EndsPlain b.designProv
  entries : ∀ e ∈ b.batteries, PrintableEntry e

section Reads

variable {levels : Nat}

theorem plain_asStr (p : Provenance) : EndsPlain p.asStr := by
  cases p <;> decide

theorem reads_telemetryToJson (v : Telemetry Binary64) :
    (telemetryToJson v).Reads (levels + 2) ↔ PrintableReading v.value := by
  obtain ⟨value, source, stamp, quality, kind⟩ := v
  have hunavailable : EndsPlain "unavailable" := by decide
  have hempty : EndsPlain "" := by decide
  cases value <;>
    simp [telemetryToJson, telemetryToJson.present, Doc.Reads, Doc.MembersRead, PrintableReading,
      Reading.value, absenceReason, plain_asStr, hunavailable, hempty]

theorem reads_seriesDoc (id : Nat) (series : Key) (unit : String) :
    (seriesDoc id series unit).Reads (levels + 2) ↔
      EndsPlain series.collector ∧ EndsPlain series.metric ∧ EndsPlain unit ∧
        EndsPlain series.extra := by
  simp [seriesDoc, Doc.Reads, Doc.MembersRead]

theorem reads_policyDoc (entry : Binary64 × Policy) :
    (policyDoc entry).Reads (levels + 3) ↔ PrintablePolicy entry := by
  have hiff : (policyDoc entry).Reads (levels + 3) ↔
      (entry.1.isFinite ∧ (∀ name ∈ entry.2.schemeName, EndsPlain name) ∧
        ∀ name ∈ entry.2.schemeGuid, EndsPlain name) ∧
        ∀ r ∈ policyReadings entry.2, PrintableReading r.2.value := by
    rw [policyDoc, Doc.Reads, membersRead_append, membersRead_map]
    simp [Doc.MembersRead, reads_optDoc, u64Doc, Doc.Reads, reads_telemetryToJson]
  rw [hiff]
  exact ⟨fun h => ⟨h.1.1, h.1.2.1, h.1.2.2, h.2⟩, fun h => ⟨⟨h.time, h.scheme, h.guid⟩, h.readings⟩⟩

theorem reads_batteryEntryDoc (e : BatteryStaticEntry) :
    (batteryEntryDoc e).Reads (levels + 2) ↔ PrintableEntry e := by
  have hiff : (batteryEntryDoc e).Reads (levels + 2) ↔
      (∀ number ∈ [e.designedMwh, e.fullMwh], ∀ x ∈ number, x.isFinite) ∧
      (∀ text ∈ [e.chemistry, e.deviceName, e.uniqueId, e.mfgName, e.mfgDate],
        EndsPlain (text.getD "")) ∧ EndsPlain e.designProv ∧ EndsPlain e.fullProv := by
    simp [batteryEntryDoc, Doc.Reads, Doc.MembersRead, reads_optDoc, u32Doc]
    tauto
  rw [hiff]
  exact ⟨fun h => ⟨h.1, h.2.1, h.2.2⟩, fun h => ⟨h.numbers, h.texts, h.words⟩⟩

theorem reads_batteryDoc (b : BatteryMeta) :
    (batteryDoc b).Reads (levels + 4) ↔ PrintableBattery b := by
  have hiff : (batteryDoc b).Reads (levels + 4) ↔
      (∀ number ∈ [b.fullMwh, b.designMwh], ∀ x ∈ number, x.isFinite) ∧
      (EndsPlain b.fullProv ∧ EndsPlain b.designProv) ∧ ∀ e ∈ b.batteries, PrintableEntry e := by
    simp [batteryDoc, Doc.Reads, Doc.MembersRead, reads_optDoc, u32Doc, itemsRead_map,
      reads_batteryEntryDoc]
    tauto
  rw [hiff]
  exact ⟨fun h => ⟨h.1, h.2.1, h.2.2⟩, fun h => ⟨h.numbers, h.words, h.entries⟩⟩

end Reads

/-! ## Names in the table of series -/

theorem endsPlain_joined {left right : List Char} {c : Char} (hc : c ≠ '"') :
    EndsPlain (joined left c right) ↔ right.getLast? ≠ some '"' := by
  rw [EndsPlain, joined, String.toList_ofList, List.getLast?_append, List.getLast?_cons]
  cases right.getLast? <;> simp [hc]

theorem getLast_decimal (n : Nat) : (decimal n).getLast? ≠ some '"' := by
  intro hlast
  have hdigit := Nat.isDigit_of_mem_toDigits (by decide) (by decide) (List.mem_of_getLast? hlast)
  exact absurd hdigit (by decide)

theorem endsPlain_topPidKey (name : String) (pid : UInt32) : EndsPlain (topPidKey name pid) :=
  (endsPlain_joined (by decide)).mpr (getLast_decimal _)

theorem endsPlain_hdrKey (h : HdrTargetRec) : EndsPlain (hdrKey h) :=
  (endsPlain_joined (by decide)).mpr (getLast_decimal _)

theorem endsPlain_procKey (pid : UInt32) (name : String) :
    EndsPlain (procKey pid name) ↔ EndsPlain name :=
  endsPlain_joined (by decide)

theorem endsPlain_totalMetric (key : String) : EndsPlain (totalMetric key) ↔ EndsPlain key := by
  have hdot : ("total.".toList).getLast? = some '.' := by decide
  rw [EndsPlain, totalMetric, String.toList_append, List.getLast?_append, hdot, EndsPlain]
  cases key.toList.getLast? <;> simp

/-- The names of a session that go into the table of series. -/
structure PlainNames (s : SessionData) : Prop where
  gpus : ∀ g ∈ s.gpu, ∀ a ∈ g.adapters, EndsPlain a.name
  /-- Of the names of a pid only the first one is there. -/
  procs : ∀ e ∈ procPids s, EndsPlain e.name
  /-- Whatever reported its exit is there too. -/
  exits : ∀ p ∈ s.procs, ∀ e ∈ p.top, e.exitUnixMs.isSome → EndsPlain e.name
  cores : ∀ c ∈ s.cpu, ∀ core ∈ c.cores, EndsPlain core.inst
  totals : ∀ c ∈ s.cpu, ∀ total ∈ c.totals, EndsPlain total.1
  displays : ∀ d ∈ s.display, ∀ e ∈ d.displays, EndsPlain e.name
  sensors : ∀ d ∈ s.display, ∀ u ∈ d.unmatchedSensors, EndsPlain u.1
  throughput : ∀ n ∈ s.net, ∀ p ∈ n.throughput, EndsPlain p.1
  adapters : ∀ n ∈ s.net, ∀ a ∈ n.adapters, EndsPlain a.aliasName
  wifi : ∀ n ∈ s.net, ∀ w ∈ n.wifi, EndsPlain w.descr
  usbClasses : ∀ u ∈ s.usb, ∀ c ∈ u.classes, EndsPlain c.className
  powerDevices : ∀ u ∈ s.usb, ∀ p ∈ u.powerDevices, EndsPlain p

/-- A series whose texts can be read back. -/
def PlainSeries (r : Key × String) : Prop := EndsPlain r.1.metric ∧ EndsPlain r.1.extra

theorem plainSeries_iff {collector metric unit : String} (hmetric : EndsPlain metric)
    (extra : String) : PlainSeries (⟨collector, metric, extra⟩, unit) ↔ EndsPlain extra :=
  and_iff_right hmetric

theorem plain_seriesOf {collector : String} {metrics : List (String × String)} {extra : String}
    (hmetrics : ∀ m ∈ metrics, EndsPlain m.1) (hne : metrics ≠ []) :
    (∀ r ∈ seriesOf collector metrics extra, PlainSeries r) ↔ EndsPlain extra := by
  obtain ⟨m, hm⟩ := List.exists_mem_of_ne_nil _ hne
  simp only [seriesOf, List.forall_mem_map, PlainSeries]
  exact ⟨fun h => (h m hm).2, fun h m hm => ⟨hmetrics m hm, h⟩⟩

theorem forall_gpuNames (s : SessionData) (P : String → Prop) :
    (∀ g ∈ gpuNames s, P g.1) ↔ ∀ g ∈ s.gpu, ∀ a ∈ g.adapters, P a.name := by
  have hmap : (∀ g ∈ gpuNames s, P g.1) ↔ ∀ name ∈ (gpuNames s).map Prod.fst, P name := by
    rw [List.forall_mem_map]
  rw [hmap]
  simp only [gpuNames, mem_map_firstSeen]
  simp only [List.forall_mem_map, List.forall_mem_flatMap]

theorem plain_gpuSeries (s : SessionData) : (∀ r ∈ gpuSeries s, PlainSeries r) ↔
    ∀ g ∈ s.gpu, ∀ a ∈ g.adapters, EndsPlain a.name := by
  have htop : ∀ name pid, PlainSeries (⟨"gpu", "top_pid_util_pct", topPidKey name pid⟩, "%") :=
    fun name pid => ⟨(by decide : EndsPlain "top_pid_util_pct"), endsPlain_topPidKey name pid⟩
  have hstale : ∀ r ∈ [((⟨"gpu", "stale", ""⟩ : Key), "bool"), (⟨"net", "topology_stale", ""⟩, "bool")],
      PlainSeries r := by
    simp only [List.forall_mem_cons, PlainSeries]
    decide
  have hmetrics : ∀ m ∈ gpuMetrics, EndsPlain m.1 := by decide
  simp only [gpuSeries, List.forall_mem_append, List.forall_mem_flatMap, List.forall_mem_map,
    plain_seriesOf hmetrics (by decide), forall_gpuNames s EndsPlain, htop, implies_true, and_true]
  exact and_iff_left hstale

theorem forall_procExitNames (s : SessionData) (P : String → Prop) :
    (∀ key ∈ procExitNames s, P key) ↔
      ∀ p ∈ s.procs, ∀ e ∈ p.top, e.exitUnixMs.isSome → P (procKey e.pid e.name) := by
  have hmem : ∀ key, key ∈ procExitNames s ↔
      key ∈ ((s.procs.flatMap ProcPoint.top).filter (·.exitUnixMs.isSome)).map fun e =>
        procKey e.pid e.name := by
    intro key
    have hiff := mem_map_firstSeen id (k := key)
      (l := ((s.procs.flatMap ProcPoint.top).filter (·.exitUnixMs.isSome)).map fun e =>
        procKey e.pid e.name)
    rwa [List.map_id, List.map_id] at hiff
  simp only [hmem, List.forall_mem_map, List.mem_filter, List.mem_flatMap]
  exact ⟨fun h p hp e he hexit => h e ⟨⟨p, hp, he⟩, hexit⟩,
    fun h e ⟨⟨p, hp, he⟩, hexit⟩ => h p hp e he hexit⟩

theorem plain_procSeries (s : SessionData) : (∀ r ∈ procSeries s, PlainSeries r) ↔
    (∀ e ∈ procPids s, EndsPlain e.name) ∧
      ∀ p ∈ s.procs, ∀ e ∈ p.top, e.exitUnixMs.isSome → EndsPlain e.name := by
  have hcoverage : ∀ r ∈ seriesOf "proc" coverageMetrics "", PlainSeries r :=
    (plain_seriesOf (by decide) (by decide)).mpr (by decide)
  have hcpu : EndsPlain "cpu_pct" := by decide
  have hexit : EndsPlain "exit_unix_ms" := by decide
  simp only [procSeries, List.forall_mem_append, List.forall_mem_map, plainSeries_iff hcpu,
    plainSeries_iff hexit, forall_procExitNames s EndsPlain, endsPlain_procKey]
  exact and_iff_left hcoverage

theorem plain_cpuSeries (s : SessionData) : (∀ r ∈ cpuSeries s, PlainSeries r) ↔
    (∀ c ∈ s.cpu, ∀ core ∈ c.cores, EndsPlain core.inst) ∧
      ∀ c ∈ s.cpu, ∀ total ∈ c.totals, EndsPlain total.1 := by
  have hempty : EndsPlain "" := by decide
  have htotal : ∀ key, PlainSeries (⟨"cpu", totalMetric key, ""⟩, "?") ↔ EndsPlain key :=
    fun key => (and_iff_left hempty).trans (endsPlain_totalMetric key)
  have hmetrics : ∀ m ∈ coreMetrics, EndsPlain m.1 := by decide
  simp only [cpuSeries, List.forall_mem_flatMap, List.forall_mem_append, List.forall_mem_map,
    plain_seriesOf hmetrics (by decide), htotal]
  exact forall₂_and

theorem plain_displaySeries (s : SessionData) : (∀ r ∈ displaySeries s, PlainSeries r) ↔
    (∀ d ∈ s.display, ∀ e ∈ d.displays, EndsPlain e.name) ∧
      ∀ d ∈ s.display, ∀ u ∈ d.unmatchedSensors, EndsPlain u.1 := by
  have hsensor : EndsPlain "unmatched_brightness" := by decide
  have hmetrics : ∀ m ∈ displayMetrics, EndsPlain m.1 := by decide
  have hhdr : ∀ m ∈ [("hdr_supported", "bool"), ("hdr_enabled", "bool")], EndsPlain m.1 := by decide
  simp only [displaySeries, List.forall_mem_flatMap, List.forall_mem_append, List.forall_mem_map,
    plain_seriesOf hmetrics (by decide), plain_seriesOf hhdr (by decide),
    plainSeries_iff hsensor, endsPlain_hdrKey, implies_true, and_true]
  exact forall₂_and

theorem plain_netSeries (s : SessionData) : (∀ r ∈ netSeries s, PlainSeries r) ↔
    (∀ n ∈ s.net, ∀ p ∈ n.throughput, EndsPlain p.1) ∧
      (∀ n ∈ s.net, ∀ a ∈ n.adapters, EndsPlain a.aliasName) ∧
      ∀ n ∈ s.net, ∀ w ∈ n.wifi, EndsPlain w.descr := by
  have hrates : ∀ m ∈ [("rx_bps", "B/s"), ("tx_bps", "B/s")], EndsPlain m.1 := by decide
  have hmetrics : ∀ m ∈ adapterMetrics, EndsPlain m.1 := by decide
  have hwifi : ∀ m ∈ [("wifi.signal_pct", "%"), ("wifi.state", "state")], EndsPlain m.1 := by decide
  simp only [netSeries, List.forall_mem_flatMap, List.forall_mem_append,
    plain_seriesOf hmetrics (by decide), plain_seriesOf hrates (by decide),
    plain_seriesOf hwifi (by decide), forall₂_and, and_assoc]

theorem plain_usbSeries (s : SessionData) : (∀ r ∈ usbSeries s, PlainSeries r) ↔
    (∀ u ∈ s.usb, ∀ c ∈ u.classes, EndsPlain c.className) ∧
      ∀ u ∈ s.usb, ∀ p ∈ u.powerDevices, EndsPlain p := by
  have hcount : EndsPlain "count" := by decide
  have hdevice : EndsPlain "power_device" := by decide
  have hbuiltin : ∀ name, isBuiltinClass name = true → EndsPlain name := by
    intro name hname
    have hall : ∀ name ∈ builtinClasses.map Prod.fst, EndsPlain name := by decide
    exact hall name (of_decide_eq_true hname)
  have hclass : ∀ name, ((!isBuiltinClass name) = true → EndsPlain name) ↔ EndsPlain name := by
    intro name
    cases hname : isBuiltinClass name with
    | true => simp [hbuiltin name hname]
    | false => simp
  simp only [usbSeries, List.forall_mem_flatMap, List.forall_mem_append, List.forall_mem_map,
    List.mem_filter, and_imp, plainSeries_iff hcount, plainSeries_iff hdevice, hclass]
  exact forall₂_and

/-- The texts in the table of series can be read back exactly if the names of the session can. -/
theorem plain_dynSeries (s : SessionData) :
    (∀ r ∈ dynSeries s, PlainSeries r) ↔ PlainNames s := by
  simp only [dynSeries, List.forall_mem_append, plain_gpuSeries, plain_procSeries, plain_cpuSeries,
    plain_displaySeries, plain_netSeries, plain_usbSeries]
  exact ⟨fun ⟨⟨⟨⟨⟨hgpu, hprocs, hexits⟩, hcores, htotals⟩, hdisplays, hsensors⟩, hthroughput,
      hadapters, hwifi⟩, hclasses, hdevices⟩ => ⟨hgpu, hprocs, hexits, hcores, htotals, hdisplays,
      hsensors, hthroughput, hadapters, hwifi, hclasses, hdevices⟩,
    fun h => ⟨⟨⟨⟨⟨h.gpus, h.procs, h.exits⟩, h.cores, h.totals⟩, h.displays, h.sensors⟩,
      h.throughput, h.adapters, h.wifi⟩, h.usbClasses, h.powerDevices⟩⟩

/-! ## The whole manifest -/

/-- A session whose manifest can be read back. -/
structure Printable (host : Host) (label source : String) (s : SessionData) : Prop where
  machineId : EndsPlain host.machineId
  label : EndsPlain label
  source : EndsPlain source
  names : PlainNames s
  adapters : ∀ a ∈ netIdent s, EndsPlain a.descr ∧ EndsPlain a.className ∧ EndsPlain a.iftype
  wifi : ∀ w ∈ wifiIdent s, EndsPlain w.ssid
  policies : ∀ entry ∈ s.policyHistory, PrintablePolicy entry
  battery : PrintableBattery s.batteryMeta
  footer : ∀ v ∈ s.footer, v.depth < Parser.depthLimit

theorem endsPlain_hex16 (n : UInt64) : EndsPlain (hex16 n) := by
  have hchar : ∀ i < 16, hexChar i ≠ '"' := by decide
  rw [EndsPlain, hex16, String.toList_ofList]
  intro hlast
  obtain ⟨i, -, hi⟩ := List.mem_map.mp (List.mem_of_getLast? hlast)
  exact hchar _ (Nat.mod_lt _ (by decide)) hi

/-- Behind a split a text ends as before. -/
theorem endsPlain_procIdentity {extra : String} (hextra : EndsPlain extra) :
    EndsPlain (procIdentity extra).2 := by
  rw [procIdentity, splitOnce]
  have happend : extra.toList = (extra.toList.span (· ≠ ':')).1 ++ (extra.toList.span (· ≠ ':')).2 := by
    rw [List.span_eq_takeWhile_dropWhile, List.takeWhile_append_dropWhile]
  split
  next left right hspan =>
    rw [hspan] at happend
    rw [EndsPlain, happend] at hextra
    simp only [Option.map_some, Option.getD_some, EndsPlain, String.toList_ofList]
    intro hright
    apply hextra
    rw [List.getLast?_append, List.getLast?_cons, hright]
    rfl
  next => exact hextra

theorem mem_register {tbl : DynTable} {series : Key} {unit : String} {d : DynEntry}
    (hd : d ∈ (tbl.register series unit).entries) :
    d ∈ tbl.entries ∨ (d.series, d.unit) = (series, unit) := by
  unfold DynTable.register at hd
  split at hd
  next => exact .inl hd
  next =>
    rcases List.mem_append.mp hd with hmem | hmem
    · exact .inl hmem
    · rw [List.mem_singleton.mp hmem]
      exact .inr rfl

/-- The entries of the table come from the series of the session. -/
theorem mem_entries {s : SessionData} {d : DynEntry} (hd : d ∈ (dynTable s).entries) :
    (d.series, d.unit) ∈ dynSeries s := by
  have hfold : ∀ (l : List (Key × String)) (tbl : DynTable),
      d ∈ (l.foldl (fun tbl r => tbl.register r.1 r.2) tbl).entries →
        d ∈ tbl.entries ∨ (d.series, d.unit) ∈ l := by
    intro l
    induction l with
    | nil => exact fun _ h => .inl h
    | cons r l ih =>
        intro tbl h
        rcases ih _ h with hmem | hmem
        · rcases mem_register hmem with hbefore | hnew
          · exact .inl hbefore
          · exact .inr (List.mem_cons.mpr (.inl hnew))
        · exact .inr (List.mem_cons_of_mem _ hmem)
  rw [dynTable] at hd
  rcases hfold _ _ hd with hnil | hmem
  · exact absurd hnil List.not_mem_nil
  · exact hmem

/-- A series of a collector and a unit that can be read back. -/
def PlainUnit (r : Key × String) : Prop := EndsPlain r.1.collector ∧ EndsPlain r.2

theorem plainUnit {collector metric extra unit : String} (hcollector : EndsPlain collector)
    (hunit : EndsPlain unit) : PlainUnit (⟨collector, metric, extra⟩, unit) :=
  ⟨hcollector, hunit⟩

/-- The collectors and the units of the table are fixed texts. -/
theorem plain_units (s : SessionData) : ∀ r ∈ dynSeries s, PlainUnit r := by
  have hseries : ∀ {collector : String} {metrics : List (String × String)} (extra : String),
      EndsPlain collector → (∀ m ∈ metrics, EndsPlain m.2) →
      ((∀ r ∈ seriesOf collector metrics extra, PlainUnit r) ↔ True) := by
    intro collector metrics extra hcollector hmetrics
    simp only [seriesOf, List.forall_mem_map, iff_true]
    exact fun m hm => ⟨hcollector, hmetrics m hm⟩
  simp (disch := decide) only [dynSeries, gpuSeries, procSeries, cpuSeries, displaySeries,
    netSeries, usbSeries, List.forall_mem_append, List.forall_mem_flatMap, List.forall_mem_map,
    List.forall_mem_cons, List.not_mem_nil, hseries, plainUnit, false_imp_iff, implies_true,
    and_true]

theorem endsPlain_of_toList {s : String} {cs : List Char} (hs : s.toList = cs)
    (hcs : cs.getLast? ≠ some '"') : EndsPlain s := by
  rw [EndsPlain, hs]
  exact hcs

/-- The texts of the fixed metrics, each taken apart into its characters. -/
theorem plain_staticMetrics :
    ∀ m ∈ staticMetrics, EndsPlain m.1 ∧ EndsPlain m.2.1 ∧ EndsPlain m.2.2 := by
  simp only [staticMetrics, List.forall_mem_cons, List.not_mem_nil, false_imp_iff, implies_true,
    and_true]
  repeat' apply And.intro
  all_goals exact endsPlain_of_toList String.toList_ofList (by decide)

theorem reads_metricDocs {levels : Nat} (s : SessionData) :
    Doc.ItemsRead (levels + 2) (metricDocs (dynTable s)) ↔ PlainNames s := by
  have hstatic : ∀ m ∈ tableEntries ⟨[], dynamicBase⟩,
      EndsPlain m.2.1.collector ∧ EndsPlain m.2.1.metric ∧ EndsPlain m.2.2 ∧
        EndsPlain m.2.1.extra := by
    intro m hm
    rw [tableEntries, List.map_nil, List.append_nil] at hm
    obtain ⟨⟨row, i⟩, hrow, rfl⟩ := List.mem_map.mp hm
    obtain ⟨hcollector, hmetric, hunit⟩ :=
      plain_staticMetrics row (List.fst_mem_of_mem_zipIdx hrow)
    have hextra : EndsPlain "" := by decide
    exact ⟨hcollector, hmetric, hunit, hextra⟩
  have hsplit : tableEntries (dynTable s) = tableEntries ⟨[], dynamicBase⟩ ++
      (dynTable s).entries.map fun d => (d.id, d.series, d.unit) := by
    rw [tableEntries, tableEntries, List.map_nil, List.append_nil]
  rw [metricDocs_eq, itemsRead_map, ← plain_dynSeries, hsplit]
  simp only [reads_seriesDoc]
  rw [List.forall_mem_append, and_iff_right hstatic, List.forall_mem_map]
  constructor
  · intro hentries r hr
    obtain ⟨d, hd, hseries⟩ := List.mem_map.mp (mem_series.mpr (List.mem_map_of_mem hr))
    obtain ⟨-, hmetric, -, hextra⟩ := hentries d hd
    rw [PlainSeries, ← hseries]
    exact ⟨hmetric, hextra⟩
  · intro hseries d hd
    obtain ⟨hcollector, hunit⟩ := plain_units s _ (mem_entries hd)
    obtain ⟨hmetric, hextra⟩ := hseries _ (mem_entries hd)
    exact ⟨hcollector, hmetric, hunit, hextra⟩

theorem reads_procDocs {levels : Nat} {s : SessionData} (hnames : PlainNames s) :
    Doc.ItemsRead (levels + 2) (procDocs (dynTable s) s) := by
  rw [procDocs, itemsRead_map]
  intro d hd
  have hseries := (plain_dynSeries s).mpr hnames _ (mem_entries (List.mem_of_mem_filter hd))
  simp [procDoc, Doc.Reads, Doc.MembersRead, reads_optDoc, u32Doc, u64Doc,
    endsPlain_procIdentity hseries.2]

/-- Adapters and interfaces are read if their other texts can be, too. -/
theorem reads_netDocs {levels : Nat} {s : SessionData} (hnames : PlainNames s) :
    Doc.ItemsRead (levels + 2) ((netIdent s).map netDoc) ↔
      ∀ a ∈ netIdent s, EndsPlain a.descr ∧ EndsPlain a.className ∧ EndsPlain a.iftype := by
  have halias : ∀ a ∈ netIdent s, EndsPlain a.aliasName := by
    have hmap : ∀ name ∈ (netIdent s).map NetAdapterRec.aliasName, EndsPlain name := by
      simp only [netIdent, mem_map_firstSeen]
      simpa only [List.forall_mem_map, List.forall_mem_flatMap] using hnames.adapters
    simpa only [List.forall_mem_map] using hmap
  rw [itemsRead_map]
  refine forall₂_congr fun a ha => ?_
  simp [netDoc, Doc.Reads, Doc.MembersRead, halias a ha]

theorem reads_wifiDocs {levels : Nat} {s : SessionData} (hnames : PlainNames s) :
    Doc.ItemsRead (levels + 2) ((wifiIdent s).map wifiDoc) ↔
    ∀ w ∈ wifiIdent s, EndsPlain w.ssid := by
  have hdescr : ∀ w ∈ wifiIdent s, EndsPlain w.descr := by
    have hmap : ∀ name ∈ (wifiIdent s).map WifiRec.descr, EndsPlain name := by
      simp only [wifiIdent, mem_map_firstSeen]
      simpa only [List.forall_mem_map, List.forall_mem_flatMap] using hnames.wifi
    simpa only [List.forall_mem_map] using hmap
  rw [itemsRead_map]
  refine forall₂_congr fun w hw => ?_
  simp [wifiDoc, Doc.Reads, Doc.MembersRead, hdescr w hw]

theorem reads_gpuDocs {levels : Nat} {s : SessionData} (hnames : PlainNames s) :
    Doc.ItemsRead (levels + 2) ((gpuNames s).map gpuDoc) := by
  rw [itemsRead_map]
  simpa [gpuDoc, Doc.Reads, Doc.MembersRead] using (forall_gpuNames s EndsPlain).mpr hnames.gpus

/-- The manifest is read exactly if every part of it can be. -/
theorem reads_manifestDoc (host : Host) (label source : String) (s : SessionData) :
    (manifestDoc host label source s).Reads (Parser.depthLimit + 1) ↔
      Printable host label source s := by
  have hfixed : EndsPlain "power-forensics" ∧ EndsPlain "0.1.0" ∧ EndsPlain "pf-archive-2" ∧
      limitations.depth < 64 := by decide
  have hiff : (manifestDoc host label source s).Reads (Parser.depthLimit + 1) ↔
      EndsPlain host.machineId ∧ EndsPlain label ∧ EndsPlain source ∧
      Doc.ItemsRead 63 (metricDocs (dynTable s)) ∧ Doc.ItemsRead 63 ((gpuNames s).map gpuDoc) ∧
      Doc.ItemsRead 63 (procDocs (dynTable s) s) ∧ Doc.ItemsRead 63 ((netIdent s).map netDoc) ∧
      Doc.ItemsRead 63 ((wifiIdent s).map wifiDoc) ∧
      (∀ entry ∈ s.policyHistory, PrintablePolicy entry) ∧ PrintableBattery s.batteryMeta ∧
      ∀ v ∈ s.footer, v.depth < Parser.depthLimit := by
    simp [manifestDoc, Parser.depthLimit, Doc.Reads, Doc.MembersRead, reads_optDoc, u64Doc,
      itemsRead_map (f := policyDoc), reads_policyDoc, reads_batteryDoc, endsPlain_hex16, hfixed]
  rw [hiff]
  constructor
  · rintro ⟨hmachine, hlabel, hsource, hmetrics, -, -, hnet, hwifi, hpolicies, hbattery, hfooter⟩
    have hnames := (reads_metricDocs s).mp hmetrics
    exact ⟨hmachine, hlabel, hsource, hnames, (reads_netDocs hnames).mp hnet,
      (reads_wifiDocs hnames).mp hwifi, hpolicies, hbattery, hfooter⟩
  · intro h
    exact ⟨h.machineId, h.label, h.source, (reads_metricDocs s).mpr h.names,
      reads_gpuDocs h.names, reads_procDocs h.names, (reads_netDocs h.names).mpr h.adapters,
      (reads_wifiDocs h.names).mpr h.wifi, h.policies, h.battery, h.footer⟩

/-- The manifest of a session is parsed exactly if every part of it can be read, and then as what
it was meant to be. -/
theorem parse_manifest (host : Host) (label source : String) (s : SessionData) (v : JVal) :
    parse (migrate host label source s).manifest = .ok v ↔
      Printable host label source s ∧ v = (manifestDoc host label source s).value := by
  rw [migrate, Doc.parse_text (keyed_manifestDoc host label source s), reads_manifestDoc]

end PowerForensics.Archive
