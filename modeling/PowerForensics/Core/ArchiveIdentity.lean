import PowerForensics.Core.ArchiveReload

/-! # Names that come back

The keys of processes and of the processes of an adapter are put together and split again, and
the identities of the manifest are read as they were written. So whatever a session names
comes back by its exact name, provided that its archive can be loaded at all; and that it cannot
if a name, a label or a text ends with a quote.
-/

namespace PowerForensics.Archive

open Json Session FirstSeen Lookup

open Doc (EndsPlain)

/-! ## Keys -/

/-- A key is split where it was joined if the character does not occur before. -/
theorem splitOnce_joined {left right : List Char} {c : Char} (hleft : c ∉ left) :
    splitOnce c (joined left c right) = some (.ofList left, .ofList right) := by
  have hne : ∀ d ∈ left, decide (d ≠ c) = true := by
    intro d hd
    simp only [ne_eq, decide_eq_true_eq]
    rintro rfl
    exact hleft hd
  have hspan : (left ++ c :: right).span (· ≠ c) = (left, c :: right) := by
    rw [List.span_eq_takeWhile_dropWhile, List.takeWhile_append_of_pos hne,
      List.dropWhile_append_of_pos hne]
    simp
  rw [splitOnce, joined, String.toList_ofList, hspan]

theorem isDigit_of_mem_decimal {n : Nat} {c : Char} (hc : c ∈ decimal n) : c.isDigit = true :=
  Nat.isDigit_of_mem_toDigits (by decide) (by decide) hc

theorem parseU32_decimal (n : UInt32) : parseU32 (.ofList (decimal n.toNat)) = some n := by
  have hdigits : ∀ c ∈ decimal n.toNat, c.isDigit = true := fun _ => isDigit_of_mem_decimal
  have hne : decimal n.toNat ≠ [] := Nat.toDigits_ne_nil
  have hvalue : Nat.ofDigitChars 10 (decimal n.toNat) 0 = n.toNat := Nat.ofDigitChars_ten_toDigits
  rw [parseU32, String.toList_ofList]
  split
  next cs hcs =>
    have hplus := hdigits '+' (by rw [hcs]; exact List.mem_cons_self)
    exact absurd hplus (by decide)
  next =>
    simp only [hvalue, hne, ne_eq, not_false_eq_true, List.all_eq_true.mpr hdigits, n.toNat_lt,
      and_self, if_true, UInt32.ofNat_toNat]

theorem procIdentity_procKey (pid : UInt32) (name : String) :
    procIdentity (procKey pid name) = (pid, name) := by
  have hcolon : ':' ∉ decimal pid.toNat := fun h => absurd (isDigit_of_mem_decimal h) (by decide)
  rw [procIdentity, procKey, splitOnce_joined hcolon]
  simp [parseU32_decimal]

/-! ## Identities -/

theorem value_obj (members : List (String × Doc)) :
    (Doc.obj members).value = .obj (Doc.memberValues members) := rfl

theorem asU32_ofNat (n : UInt32) : asU32 (.ofNat n.toNat) = n := by
  have hlt := n.toNat_lt
  rw [asU32, Binary64.toUnsigned_ofNat (hlt.trans (by decide)), min_eq_left (by omega),
    UInt32.ofNat_toNat]

theorem readGpu_doc (g : String × Bool) : readGpu (gpuDoc g).value = some g := rfl

theorem readNet_doc (a : NetAdapterRec) :
    readNet (netDoc a).value = some (a.aliasName, ⟨a.descr, a.className, a.iftype⟩) := rfl

theorem readWifi_doc (w : WifiRec) : readWifi (wifiDoc w).value = some (w.descr, w.ssid) := rfl

/-- A time of a process as the manifest gives it back. -/
def rereadMs (ms : Option UInt64) : Option UInt64 := ms.map fun ms => asU64 (ofU64 ms)

/-- The identity of a process as it comes back. -/
def identityOf (pids : List ProcEntry) (d : DynEntry) : ProcIdentity :=
  let identity := procIdentity d.series.extra
  let seen := pids.find? fun e => e.pid = identity.1
  ⟨identity.1, identity.2, (seen.map ProcEntry.ppid).getD 0,
    rereadMs (seen.bind ProcEntry.startUnixMs), rereadMs (seen.bind ProcEntry.exitUnixMs)⟩

theorem readProc_doc (pids : List ProcEntry) (d : DynEntry) :
    readProc (procDoc pids d).value = some (d.id, identityOf pids d) := by
  have htimes : ∀ ms : Option UInt64, (optDoc u64Doc ms).value.num?.map asU64 = rereadMs ms := by
    intro ms
    cases ms <;> rfl
  have hnumber : ∀ n : Nat, (Doc.digits n).value.num? = some (.ofNat n) := fun _ => rfl
  have htext : ∀ s : String, (Doc.quoted s).value.asStr = some s := fun _ => rfl
  simp only [readProc, procDoc, value_obj, Doc.memberValues, JVal.numAt, JVal.strAt, get_obj_cons,
    optMs, reduceIte, String.reduceEq, Option.bind_some, htimes, hnumber, htext, u32Doc,
    Option.getD_some, Option.bind_eq_bind, asU16_ofNat, asU32_ofNat, identityOf]
  rfl

/-! ## Tables of the manifest -/

section Tables

variable (host : Host) (label source : String) (s : SessionData)

/-- An array of the manifest. -/
theorem listAt_manifest {manifest : JVal} {key : String} {docs : List Doc}
    (hget : manifest.get key = some (Doc.arr docs).value) :
    listAt manifest key = docs.map Doc.value := by
  rw [listAt, JVal.arrAt, hget, ← Doc.itemValues_eq]
  rfl

theorem gpuDisc_manifest :
    (listAt (manifestOf host label source s) "gpu_adapters").filterMap readGpu = gpuNames s := by
  have hget : (manifestOf host label source s).get "gpu_adapters" =
      some (Doc.arr ((gpuNames s).map gpuDoc)).value := by
    simp only [manifestOf, manifestDoc, value_obj, Doc.memberValues, get_obj_cons, String.reduceEq,
      if_false, if_true]
  rw [listAt_manifest hget, List.map_map, List.filterMap_map]
  refine (List.filterMap_congr fun g _ => ?_).trans List.filterMap_some
  exact readGpu_doc g

theorem netIdent_manifest :
    (listAt (manifestOf host label source s) "net_adapters").filterMap readNet =
      (netIdent s).map fun a => (a.aliasName, ⟨a.descr, a.className, a.iftype⟩) := by
  have hget : (manifestOf host label source s).get "net_adapters" =
      some (Doc.arr ((netIdent s).map netDoc)).value := by
    simp only [manifestOf, manifestDoc, value_obj, Doc.memberValues, get_obj_cons, String.reduceEq,
      if_false, if_true]
  rw [listAt_manifest hget, List.map_map, List.filterMap_map, ← List.filterMap_eq_map]
  exact List.filterMap_congr fun a _ => readNet_doc a

theorem wifiSsid_manifest :
    (listAt (manifestOf host label source s) "wifi_identity").filterMap readWifi =
      (wifiIdent s).map fun w => (w.descr, w.ssid) := by
  have hget : (manifestOf host label source s).get "wifi_identity" =
      some (Doc.arr ((wifiIdent s).map wifiDoc)).value := by
    simp only [manifestOf, manifestDoc, value_obj, Doc.memberValues, get_obj_cons, String.reduceEq,
      if_false, if_true]
  rw [listAt_manifest hget, List.map_map, List.filterMap_map, ← List.filterMap_eq_map]
  exact List.filterMap_congr fun w _ => readWifi_doc w

theorem procIdent_manifest :
    (listAt (manifestOf host label source s) "proc_identity").filterMap readProc =
      ((dynTable s).entries.filter fun d => d.series.collector = "proc").map fun d =>
        (d.id, identityOf (procPids s) d) := by
  have hget : (manifestOf host label source s).get "proc_identity" =
      some (Doc.arr (procDocs (dynTable s) s)).value := by
    simp only [manifestOf, manifestDoc, value_obj, Doc.memberValues, get_obj_cons, String.reduceEq,
      if_false, if_true]
  rw [listAt_manifest hget, procDocs, List.map_map, List.filterMap_map,
    ← List.filterMap_eq_map]
  refine List.filterMap_congr fun d _ => ?_
  rw [Function.comp_apply, Function.comp_apply, readProc_doc]
  rfl

end Tables

/-! ## What survives -/

/-- Every text of a session comes back from its archive as it was. -/
structure Survives (host : Host) (label source : String) (s : SessionData) : Prop where
  /-- The manifest is JSON, and has the tables of the session in it. -/
  tables : ∃ manifest, parse (migrate host label source s).manifest = .ok manifest ∧
    manifest.strAt "label" = some label ∧ manifest.strAt "source" = some source ∧
    readTable [] (listAt manifest "metrics") = .ok (tableOf (dynTable s)) ∧
    (listAt manifest "gpu_adapters").filterMap readGpu = gpuNames s ∧
    (∀ e ∈ procPids s, ∃ p ∈ (listAt manifest "proc_identity").filterMap readProc,
      p.2.pid = e.pid ∧ p.2.name = e.name) ∧
    (listAt manifest "net_adapters").filterMap readNet =
      (netIdent s).map (fun a => (a.aliasName, ⟨a.descr, a.className, a.iftype⟩)) ∧
    (listAt manifest "wifi_identity").filterMap readWifi =
      (wifiIdent s).map fun w => (w.descr, w.ssid)
  /-- The archive is loaded, with the schemes and the events of the session. -/
  loaded : ∀ order name, ∃ s', loadArchiveV2 order name (migrate host label source s).manifest
      (migrate host label source s).samples (migrate host label source s).events = .ok s' ∧
    s'.policyHistory.map (fun entry => (entry.2.schemeName, entry.2.schemeGuid)) =
      s.policyHistory.map (fun entry => (entry.2.schemeName, entry.2.schemeGuid)) ∧
    s'.events.map (fun e => (e.kind, e.detail)) = s.events.map fun e => (e.kind, e.detail)

theorem scheme_rereadPolicy {entry entry' : Binary64 × Policy}
    (hread : rereadPolicy entry = some entry') : entry'.1 = entry.1.toPlaces 3 ∧
      entry'.2.schemeName = entry.2.schemeName ∧ entry'.2.schemeGuid = entry.2.schemeGuid := by
  rw [rereadPolicy] at hread
  iterate 19 obtain ⟨_, -, hread⟩ := Option.bind_eq_some_iff.mp hread
  obtain rfl := Option.some.inj hread
  exact ⟨rfl, rfl, rfl⟩

theorem schemes_reread {history history' : List (Binary64 × Policy)}
    (hread : history.mapM rereadPolicy = some history') :
    history'.map (fun entry => (entry.2.schemeName, entry.2.schemeGuid)) =
      history.map fun entry => (entry.2.schemeName, entry.2.schemeGuid) := by
  induction history generalizing history' with
  | nil =>
      obtain rfl := Option.some.inj hread
      rfl
  | cons entry history ih =>
      rw [List.mapM_cons] at hread
      obtain ⟨entry', hentry, hread⟩ := Option.bind_eq_some_iff.mp hread
      obtain ⟨rest, hrest, hread⟩ := Option.bind_eq_some_iff.mp hread
      obtain rfl := Option.some.inj hread
      obtain ⟨-, hname, hguid⟩ := scheme_rereadPolicy hentry
      rw [List.map_cons, List.map_cons, ih hrest, hname, hguid]

/-- Every process of the table has its identity. -/
theorem identity_of_procPids {s : SessionData} {e : ProcEntry} (he : e ∈ procPids s) (host : Host)
    (label source : String) :
    ∃ p ∈ (listAt (manifestOf host label source s) "proc_identity").filterMap readProc,
      p.2.pid = e.pid ∧ p.2.name = e.name := by
  have hseries : (⟨"proc", "cpu_pct", procKey e.pid e.name⟩ : Key) ∈ (dynSeries s).map Prod.fst := by
    have hproc : ((⟨"proc", "cpu_pct", procKey e.pid e.name⟩ : Key), "%") ∈ procSeries s :=
      List.mem_append_left _ (List.mem_append_left _ (List.mem_map_of_mem he))
    refine List.mem_map.mpr ⟨(⟨"proc", "cpu_pct", procKey e.pid e.name⟩, "%"), ?_, rfl⟩
    simp only [dynSeries, List.mem_append, hproc, true_or, or_true]
  obtain ⟨d, hd, heq⟩ := List.mem_map.mp (mem_series.mpr hseries)
  rw [procIdent_manifest]
  refine ⟨_, List.mem_map_of_mem (List.mem_filter.mpr ⟨hd, by simp [heq]⟩), ?_⟩
  simp only [identityOf, heq, procIdentity_procKey, and_self]

/-- The order in which a map is walked as it was filled. -/
def asFilled : MapOrder := ⟨id, fun table => .refl table⟩

section Survives

variable {host : Host} {label source : String} {s : SessionData}

theorem Survives.loadable (h : Survives host label source s) : Loadable host label source s := by
  obtain ⟨s', hload, -⟩ := h.loaded asFilled label
  exact (load_migrate_isOk asFilled host label label source s).mp ⟨s', hload⟩

theorem Survives.events (h : Survives host label source s) :
    ∀ e ∈ s.events, EndsPlain e.kind ∧ EndsPlain e.detail := by
  obtain ⟨s', hload, -, hevents⟩ := h.loaded asFilled label
  obtain ⟨-, -, -, history, -, rfl⟩ := (load_migrate asFilled host label label source s s').mp hload
  exact (events_kept s.events).mp hevents

end Survives

/-- Every text comes back exactly if the session is loadable and no event ends with a quote. -/
theorem survives_iff (host : Host) (label source : String) (s : SessionData) :
    Survives host label source s ↔
      Loadable host label source s ∧ ∀ e ∈ s.events, EndsPlain e.kind ∧ EndsPlain e.detail := by
  refine ⟨fun h => ⟨h.loadable, h.events⟩, ?_⟩
  rintro ⟨hloadable, hevents⟩
  constructor
  · exact ⟨_, (parse_manifest host label source s _).mpr ⟨hloadable.printable, rfl⟩, rfl, rfl,
      (readTable_metrics s _).mpr ⟨hloadable.fits, rfl⟩, gpuDisc_manifest host label source s,
      fun e he => identity_of_procPids he host label source, netIdent_manifest host label source s,
      wifiSsid_manifest host label source s⟩
  · intro order name
    obtain ⟨s', hload⟩ := (load_migrate_isOk order host name label source s).mpr hloadable
    obtain ⟨-, -, -, history, hread, rfl⟩ :=
      (load_migrate order host name label source s s').mp hload
    exact ⟨_, hload, schemes_reread hread, (events_kept s.events).mpr hevents⟩

/-- A session with one event. -/
def markedSession (detail : String) : SessionData :=
  { (default : SessionData) with events := [⟨1000, 1000, "marker", detail⟩] }

/-- A label that ends with a quote makes the archive unreadable, an event that does is lost. -/
theorem texts_lost :
    ¬ Survives ⟨"workstation", fun _ _ _ => 0⟩ "run \"a\"" "logs" default ∧
      ¬ Survives ⟨"workstation", fun _ _ _ => 0⟩ "run" "logs" (markedSession "open \"report\"") := by
  constructor
  · intro h
    exact absurd h.loadable.printable.label (by decide)
  · intro h
    exact absurd (h.events _ List.mem_cons_self).2 (by decide)

end PowerForensics.Archive
