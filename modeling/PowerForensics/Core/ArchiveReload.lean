import PowerForensics.Core.ArchivePrintable

/-! # What an archive is loaded as

An archive of a session is loaded exactly if its manifest can be read, its series have
numbers enough and its reasons can be cut. What comes out is then known: the table, the
identities and the policies of the manifest, the events that could be read, and the points
that the store of the session gives.
-/

namespace PowerForensics.Archive

open Json Session FirstSeen Lookup

open Doc (EndsPlain)

/-! ## Events -/

/-- An event comes back exactly if its texts end plain. -/
theorem readEvent_eventDoc (e : EventRec) :
    readEvent (.ofList (eventDoc e).text) =
      if EndsPlain e.kind ∧ EndsPlain e.detail then
        some ⟨asU64 (ofU64 e.wallMs), asU64 (ofU64 e.monoMs), e.kind, e.detail⟩
      else none := by
  have hkeyed : (eventDoc e).Keyed := by
    simp (disch := decide) [eventDoc, Doc.Keyed, Doc.MembersKeyed, plainKey_of_lower, keyed_u64Doc]
  have hreads : (eventDoc e).Reads (Parser.depthLimit + 1) ↔ EndsPlain e.kind ∧
    EndsPlain e.detail := by
    have hevent : EndsPlain "event" := by decide
    simp [eventDoc, Parser.depthLimit, Doc.Reads, Doc.MembersRead, u64Doc, hevent]
  have hparse := Doc.parse_text hkeyed
  rw [readEvent]
  split_ifs with hplain
  · rw [(hparse _).mpr ⟨hreads.mpr hplain, rfl⟩]
    simp [eventDoc, Doc.value, Doc.memberValues, wallMs, JVal.numAt, JVal.strAt, get_obj_cons,
      u64Doc, JVal.num?, JVal.asStr, ofU64]
  · cases hline : parse (.ofList (eventDoc e).text) with
    | error _ => rfl
    | ok v => exact absurd (hreads.mp ((hparse v).mp hline).1) hplain

/-- The events come back with their texts, all of them and in order, exactly if all texts end
plain. -/
theorem events_kept (events : List EventRec) :
    ((events.map fun e => String.ofList (eventDoc e).text).filterMap readEvent).map
        (fun e => (e.kind, e.detail)) = events.map (fun e => (e.kind, e.detail)) ↔
      ∀ e ∈ events, EndsPlain e.kind ∧ EndsPlain e.detail := by
  rw [List.filterMap_map]
  constructor
  · intro hkept
    have hlength := congrArg List.length hkept
    rw [List.length_map, List.length_map, List.filterMap_length_eq_length] at hlength
    intro e he
    have hsome := hlength e he
    rw [Function.comp_apply, readEvent_eventDoc] at hsome
    by_contra hplain
    rw [if_neg hplain] at hsome
    cases hsome
  · intro hplain
    have hall : events.filterMap (readEvent ∘ fun e => String.ofList (eventDoc e).text) =
        events.map fun e => ⟨asU64 (ofU64 e.wallMs), asU64 (ofU64 e.monoMs), e.kind, e.detail⟩ := by
      rw [← List.filterMap_eq_map]
      refine List.filterMap_congr fun e he => ?_
      rw [Function.comp_apply, readEvent_eventDoc, if_pos (hplain e he)]
      rfl
    rw [hall, List.map_map]
    rfl

/-! ## Policies -/

/-- What a reading of the manifest comes back as; none if its reason cannot be cut. -/
def reread (v : Telemetry Binary64) (source : String) (stamp : ClockStamp) :
    Option (Telemetry Binary64) :=
  (keptReading v.value).map fun kept =>
    if v.val.isSome then ⟨kept, source, stamp, freshUnlessKnown v.quality, none⟩
    else ⟨kept, source, stamp, v.quality, some (v.unavailKind.getD .notSampled)⟩

theorem internReason_eq_ok (reason : String) (kept : String) :
    internReason reason = .ok kept ↔
      ∃ cs, truncate reasonLimit reason.toList = some cs ∧ kept = .ofList cs := by
  cases hcut : truncate reasonLimit reason.toList with
  | some cs => simp [internReason_of_cut hcut, eq_comm]
  | none =>
      have hok := internReason_isOk reason
      rw [hcut] at hok
      cases hintern : internReason reason with
      | ok s => simp [hintern] at hok
      | error e => simp

/-- A value comes back with its provenance. -/
theorem evInner_shown {v : Telemetry Binary64} {x : Binary64}
    (hshown : telemetryToJson v = telemetryToJson.present v x) (hval : v.val = some x)
    (hvalue : present? (some v.value.provenance.asStr) x = some v.value)
    (hkept : keptReading v.value = some v.value) (w : Telemetry Binary64) (source : String)
    (stamp : ClockStamp) :
    evInner (some (telemetryToJson v).value) source stamp = .ok w ↔
      reread v source stamp = some w := by
  have hq := asU8_ofNat v.quality.code
  have hread : evInner (some (telemetryToJson v).value) source stamp =
      .ok ⟨v.value, source, stamp, freshUnlessKnown v.quality, none⟩ := by
    simp only [hshown, telemetryToJson.present, Doc.value, Doc.memberValues, evInner,
      Option.bind_some, JVal.num?, JVal.numAt, JVal.strAt, get_obj_cons, get_obj_nil, JVal.asStr,
      if_true, reduceIte, String.reduceEq, Option.map_some, Option.getD_some, hvalue, hq,
      SampleQuality.fromU8_code]
  rw [hread, reread, hkept, Except.ok.injEq, Option.map_some, hval, Option.isSome_some, if_pos rfl,
    Option.some.injEq]

theorem evInner_reason (v : Telemetry Binary64) {reason : String}
    (hvalue : v.value = .unavailable reason) (source : String) (stamp : ClockStamp) :
    evInner (some (telemetryToJson v).value) source stamp = internReason reason >>= fun kept =>
      .ok ⟨.unavailable kept, source, stamp, v.quality, some (v.unavailKind.getD .notSampled)⟩ := by
  obtain ⟨value, src, st, quality, kind⟩ := v
  obtain rfl : value = .unavailable reason := hvalue
  have hq := asU8_ofNat quality.code
  have hk := asU8_ofNat (kind.getD .notSampled).code
  simp only [telemetryToJson, Doc.value, Doc.memberValues, evInner, Option.bind_some,
    JVal.num?, JVal.numAt, JVal.strAt, get_obj_cons, get_obj_nil, JVal.asStr, if_true,
    reduceIte, String.reduceEq, Option.map_some, Option.getD_some, hk, hq, storedReason,
    UnavailKind.fromU8_code, SampleQuality.fromU8_code]
  rfl

theorem evInner_json (v w : Telemetry Binary64) (source : String) (stamp : ClockStamp) :
    evInner (some (telemetryToJson v).value) source stamp = .ok w ↔
      reread v source stamp = some w := by
  obtain ⟨value, src, st, quality, kind⟩ := v
  cases value with
  | unavailable reason =>
      rw [evInner_reason _ rfl, bind_eq_ok, reread]
      simp only [internReason_eq_ok, keptReading, Option.map_map, Option.map_eq_some_iff,
        Except.ok.injEq]
      constructor
      · rintro ⟨kept, ⟨cs, hcut, rfl⟩, rfl⟩
        exact ⟨cs, hcut, rfl⟩
      · rintro ⟨cs, hcut, rfl⟩
        exact ⟨_, ⟨cs, hcut, rfl⟩, rfl⟩
  | measured x => exact evInner_shown rfl rfl rfl rfl w source stamp
  | derived x => exact evInner_shown rfl rfl rfl rfl w source stamp
  | estimated x => exact evInner_shown rfl rfl rfl rfl w source stamp

/-- What a policy of the manifest comes back as. -/
def rereadPolicy (entry : Binary64 × Policy) : Option (Binary64 × Policy) := do
  let t := entry.1.toPlaces 3
  let pt (v : Telemetry Binary64) := reread v "os" ⟨0, asU64 (t * 1000.0)⟩
  let timerResolution ← pt entry.2.timerResolution
  let cpuMinAc ← pt entry.2.cpuMinAc
  let cpuMaxAc ← pt entry.2.cpuMaxAc
  let cpuMinDc ← pt entry.2.cpuMinDc
  let cpuMaxDc ← pt entry.2.cpuMaxDc
  let eppAc ← pt entry.2.eppAc
  let eppDc ← pt entry.2.eppDc
  let brightnessAc ← pt entry.2.brightnessAc
  let brightnessDc ← pt entry.2.brightnessDc
  let displayTimeoutAc ← pt entry.2.displayTimeoutAc
  let displayTimeoutDc ← pt entry.2.displayTimeoutDc
  let sleepTimeoutAc ← pt entry.2.sleepTimeoutAc
  let sleepTimeoutDc ← pt entry.2.sleepTimeoutDc
  let hibernateTimeoutAc ← pt entry.2.hibernateTimeoutAc
  let hibernateTimeoutDc ← pt entry.2.hibernateTimeoutDc
  let lowBattAc ← pt entry.2.lowBattAc
  let lowBattDc ← pt entry.2.lowBattDc
  let critBattAc ← pt entry.2.critBattAc
  let critBattDc ← pt entry.2.critBattDc
  return (t, { schemeName := entry.2.schemeName, schemeGuid := entry.2.schemeGuid,
               policySnapshotWallMs := entry.2.policySnapshotWallMs.map fun ms => asU64 (ofU64 ms),
               timerResolution, cpuMinAc, cpuMaxAc, cpuMinDc, cpuMaxDc, eppAc, eppDc,
               brightnessAc, brightnessDc, displayTimeoutAc, displayTimeoutDc, sleepTimeoutAc,
               sleepTimeoutDc, hibernateTimeoutAc, hibernateTimeoutDc, lowBattAc, lowBattDc,
               critBattAc, critBattDc })

/-- Two computations that succeed with the same results. -/
def Succeed {α : Type} (x : Except Fault α) (o : Option α) : Prop := ∀ a, x = .ok a ↔ o = some a

theorem Succeed.bind {α β : Type} {x : Except Fault α} {o : Option α} {f : α → Except Fault β}
    {g : α → Option β} (hx : Succeed x o) (hf : ∀ a, Succeed (f a) (g a)) :
    Succeed (x >>= f) (o >>= g) := by
  intro b
  have hbind : (o >>= g) = some b ↔ ∃ a, o = some a ∧ g a = some b := Option.bind_eq_some_iff
  rw [bind_eq_ok, hbind]
  exact exists_congr fun a => and_congr (hx a) (hf a b)

theorem succeed_pure {α : Type} (a : α) : Succeed (pure a) (pure a) := by
  intro b
  simp [pure, Except.pure]

/-- A key that occurs once has the value it is written with. -/
theorem get_obj_of_mem {pairs : List (String × JVal)} (hpairs : (pairs.map Prod.fst).Nodup)
    {key : String} {v : JVal} (hmem : (key, v) ∈ pairs) : (JVal.obj pairs).get key = some v := by
  induction pairs with
  | nil => exact absurd hmem List.not_mem_nil
  | cons kv pairs ih =>
      obtain ⟨hnew, hrest⟩ := List.nodup_cons.mp hpairs
      obtain ⟨k, u⟩ := kv
      rw [get_obj_cons]
      rcases List.mem_cons.mp hmem with heq | htail
      · obtain ⟨rfl, rfl⟩ := Prod.mk.inj heq
        rw [if_pos rfl]
      · rw [if_neg, ih hrest htail]
        rintro rfl
        exact hnew (List.mem_map.mpr ⟨_, htail, rfl⟩)

theorem policyReading_doc (entry : Binary64 × Policy) (stamp : ClockStamp) {key : String}
    {v : Telemetry Binary64} (hkey : (key, v) ∈ policyReadings entry.2) :
    Succeed (policyReading (policyDoc entry).value stamp key) (reread v "os" stamp) := by
  have hget : (policyDoc entry).value.get key = some (telemetryToJson v).value := by
    refine get_obj_of_mem ?_ ?_
    · show List.Nodup ["t", "scheme", "scheme_guid", "snapshot_wall_ms", "timer_resolution",
        "cpu_min_ac", "cpu_min_dc", "cpu_max_ac", "cpu_max_dc", "epp_ac", "epp_dc",
        "brightness_ac", "brightness_dc", "display_timeout_ac", "display_timeout_dc",
        "sleep_timeout_ac", "sleep_timeout_dc", "hibernate_timeout_ac", "hibernate_timeout_dc",
        "low_batt_ac", "low_batt_dc", "crit_batt_ac", "crit_batt_dc"]
      decide
    · rw [Doc.memberValues_eq, List.map_append, List.map_map]
      exact List.mem_append_right _ (List.mem_map_of_mem hkey)
  intro w
  rw [policyReading, hget]
  exact evInner_json v w "os" stamp

theorem readPolicy_doc (entry : Binary64 × Policy) :
    Succeed (readPolicy (policyDoc entry).value) (rereadPolicy entry) := by
  have hreading : ∀ {key : String} {v : Telemetry Binary64} (stamp : ClockStamp),
      (key, v) ∈ policyReadings entry.2 →
        Succeed (policyReading (policyDoc entry).value stamp key) (reread v "os" stamp) :=
    fun stamp => policyReading_doc entry stamp
  have htime : ((policyDoc entry).value.numAt "t").getD 0.0 = entry.1.toPlaces 3 := rfl
  have hscheme : (policyDoc entry).value.strAt "scheme" = entry.2.schemeName := by
    cases hname : entry.2.schemeName <;>
      simp [policyDoc, Doc.value, Doc.memberValues, JVal.strAt, get_obj_cons, optDoc, hname,
        JVal.asStr]
  have hguid : (policyDoc entry).value.strAt "scheme_guid" = entry.2.schemeGuid := by
    cases hname : entry.2.schemeGuid <;>
      simp [policyDoc, Doc.value, Doc.memberValues, JVal.strAt, get_obj_cons, optDoc, hname,
        JVal.asStr]
  have hsnapshot : optMs (policyDoc entry).value "snapshot_wall_ms" =
      entry.2.policySnapshotWallMs.map fun ms => asU64 (ofU64 ms) := by
    cases hname : entry.2.policySnapshotWallMs <;>
      simp [policyDoc, Doc.value, Doc.memberValues, optMs, JVal.numAt, get_obj_cons, optDoc, hname,
        JVal.num?, u64Doc, ofU64]
  rw [readPolicy, rereadPolicy, htime, hscheme, hguid, hsnapshot]
  iterate 19 refine (hreading _ (by simp [policyReadings])).bind fun _ => ?_
  exact succeed_pure _

theorem isSome_reread (v : Telemetry Binary64) (source : String) (stamp : ClockStamp) :
    (reread v source stamp).isSome = (keptReading v.value).isSome := Option.isSome_map

theorem isSome_reread_bind {α : Type} {v : Telemetry Binary64} {rest : List (Telemetry Binary64)}
    {source : String} {stamp : ClockStamp} {f : Telemetry Binary64 → Option α}
    (hf : ∀ w, (f w).isSome ↔ ∀ u ∈ rest, (keptReading u.value).isSome) :
    (reread v source stamp >>= f).isSome ↔ ∀ u ∈ v :: rest, (keptReading u.value).isSome := by
  rw [List.forall_mem_cons, ← isSome_reread v source stamp]
  cases reread v source stamp with
  | none => simp
  | some w => simpa using hf w

/-- A policy comes back exactly if every reason in it can be cut. -/
theorem isSome_rereadPolicy (entry : Binary64 × Policy) : (rereadPolicy entry).isSome ↔
    ∀ r ∈ policyReadings entry.2, (keptReading r.2.value).isSome := by
  -- The reader takes the readings in an order of its own.
  let readings := ((policyReadings entry.2).map Prod.snd)
  have hperm : (readings.take 2 ++ readings[3]! :: readings[2]! :: readings.drop 4).Perm readings :=
    ((List.Perm.swap _ _ _).cons _).cons _
  have hread : (rereadPolicy entry).isSome ↔
      ∀ u ∈ readings.take 2 ++ readings[3]! :: readings[2]! :: readings.drop 4,
        (keptReading u.value).isSome := by
    rw [rereadPolicy]
    iterate 19 refine isSome_reread_bind fun _ => ?_
    simp
  rw [hread]
  simp only [hperm.mem_iff]
  exact List.forall_mem_map

theorem isSome_mapM {α β : Type} {f : α → Option β} {l : List α} :
    (l.mapM f).isSome ↔ ∀ a ∈ l, (f a).isSome := by
  induction l with
  | nil => simp
  | cons a l ih =>
      rw [List.mapM_cons, List.forall_mem_cons, ← ih]
      cases f a <;> cases l.mapM f <;> simp

theorem readPolicies_doc (history : List (Binary64 × Policy)) :
    Succeed ((history.map fun entry => (policyDoc entry).value).mapM readPolicy)
      (history.mapM rereadPolicy) := by
  induction history with
  | nil => exact succeed_pure []
  | cons entry history ih =>
      rw [List.map_cons, List.mapM_cons, List.mapM_cons]
      exact (readPolicy_doc entry).bind fun _ => ih.bind fun _ => succeed_pure _

/-! ## The whole archive -/

/-- The manifest as it is read back. -/
def manifestOf (host : Host) (label source : String) (s : SessionData) : JVal :=
  (manifestDoc host label source s).value

/-- The store of a session as it is read back. -/
def sessionStore (s : SessionData) : Store :=
  storeOf (tableOf (dynTable s)) s.wallBaseMs (samples (dynTable s) s)

/-- What the points of the loaded session are built from. -/
def sessionView (order : MapOrder) (host : Host) (label source : String) (s : SessionData) : View :=
  viewOf order (manifestOf host label source s) (tableOf (dynTable s)) (sessionStore s)

/-- A session whose archive can be loaded. -/
structure Loadable (host : Host) (label source : String) (s : SessionData) : Prop where
  printable : Printable host label source s
  fits : Fits s
  reasons : Every (fun x => KeepableReading x.v.value) (samples (dynTable s) s)
  policies : ∀ entry ∈ s.policyHistory, ∀ r ∈ policyReadings entry.2, (keptReading r.2.value).isSome

/-- The session that the archive is loaded as, once the policies are read. -/
def reloaded (order : MapOrder) (host : Host) (name label source : String) (s : SessionData)
    (history : List (Binary64 × Policy)) : SessionData :=
  (sessionView order host label source s).session name (asU64 (ofU64 s.wallBaseMs)) history
    (readBattery (manifestOf host label source s))
    ((s.events.map fun e => String.ofList (eventDoc e).text).filterMap readEvent)
    (readFooter (manifestOf host label source s))

theorem load_migrate (order : MapOrder) (host : Host) (name label source : String)
    (s s' : SessionData) :
    loadArchiveV2 order name (migrate host label source s).manifest
        (migrate host label source s).samples (migrate host label source s).events = .ok s' ↔
      Printable host label source s ∧ Fits s ∧
        Every (fun x => KeepableReading x.v.value) (samples (dynTable s) s) ∧
        ∃ history, s.policyHistory.mapM rereadPolicy = some history ∧
          s' = reloaded order host name label source s history := by
  cases hparse : parse (migrate host label source s).manifest with
  | error e =>
      -- a manifest that is not read is not printable
      have hnot : ¬ Printable host label source s := by
        intro hprintable
        have hok := (parse_manifest host label source s _).mpr ⟨hprintable, rfl⟩
        rw [hparse] at hok
        cases hok
      rw [loadArchiveV2, hparse]
      exact ⟨nofun, fun h => absurd h.1 hnot⟩
  | ok v =>
      obtain ⟨hprintable, rfl⟩ := (parse_manifest host label source s v).mp hparse
      have hformat : (manifestDoc host label source s).value.strAt "format" =
          some "pf-archive-2" := rfl
      have hmetrics : listAt (manifestDoc host label source s).value "metrics" =
          Doc.itemValues (metricDocs (dynTable s)) := rfl
      have hpolicies : listAt (manifestDoc host label source s).value "policy_history" =
          s.policyHistory.map fun entry => (policyDoc entry).value := by
        have hitems : listAt (manifestDoc host label source s).value "policy_history" =
            Doc.itemValues (s.policyHistory.map policyDoc) := rfl
        rw [hitems, Doc.itemValues_eq, List.map_map]
        rfl
      have hhistory := readPolicies_doc s.policyHistory
      have hwall : (manifestDoc host label source s).value.numAt "wall_base_ms" =
          some (ofU64 s.wallBaseMs) := rfl
      rw [loadArchiveV2, hparse]
      -- what is left to fail are the table, the records and the policies
      simp only [hformat, hmetrics, hpolicies, hwall, ne_eq, not_true_eq_false, if_false,
        bind_eq_ok, readTable_metrics, Option.getD_some, hhistory _, hprintable, true_and]
      constructor
      · rintro ⟨_, ⟨hfits, rfl⟩, store, hstore, history, hread, hs⟩
        obtain ⟨hreasons, rfl⟩ := (loadRecords_samples s store).mp hstore
        exact ⟨hfits, hreasons, history, hread, (Except.ok.inj hs).symm⟩
      · rintro ⟨hfits, hreasons, history, hread, rfl⟩
        exact ⟨_, ⟨hfits, rfl⟩, _, (loadRecords_samples s _).mpr ⟨hreasons, rfl⟩, history, hread,
          rfl⟩

/-- An archive is loaded exactly if the session is loadable. -/
theorem load_migrate_isOk (order : MapOrder) (host : Host) (name label source : String)
    (s : SessionData) :
    (∃ s', loadArchiveV2 order name (migrate host label source s).manifest
        (migrate host label source s).samples (migrate host label source s).events = .ok s') ↔
      Loadable host label source s := by
  have hpolicies : (∃ history, s.policyHistory.mapM rereadPolicy = some history) ↔
      ∀ entry ∈ s.policyHistory, ∀ r ∈ policyReadings entry.2, (keptReading r.2.value).isSome := by
    rw [← Option.isSome_iff_exists, isSome_mapM]
    exact forall₂_congr fun entry _ => isSome_rereadPolicy entry
  simp only [load_migrate]
  constructor
  · rintro ⟨s', hprintable, hfits, hreasons, history, hread, -⟩
    exact ⟨hprintable, hfits, hreasons, hpolicies.mp ⟨history, hread⟩⟩
  · intro h
    obtain ⟨history, hread⟩ := hpolicies.mpr h.policies
    exact ⟨_, h.printable, h.fits, h.reasons, history, hread, rfl⟩

end PowerForensics.Archive
