import PowerForensics.Core.ArchiveLoader

/-! # The table of series

The table that a reader makes of a manifest is the table of the writer, the fixed series
first, as long as the numbers of sixteen bits do not run out. Behind the last number they
start again from zero, and the reader refuses the manifest.
-/

namespace PowerForensics.Archive

open Json Session FirstSeen Lookup

/-! ## Registering -/

/-- The series are numbered one after another. -/
structure Numbered (tbl : DynTable) : Prop where
  ids : tbl.entries.map DynEntry.id =
    (List.range tbl.entries.length).map fun i => UInt16.ofNat (1000 + i)
  next : tbl.next = UInt16.ofNat (1000 + tbl.entries.length)

theorem numbered_register {tbl : DynTable} (htbl : Numbered tbl) (series : Key) (unit : String) :
    Numbered (tbl.register series unit) := by
  unfold DynTable.register
  split
  next hseen => exact htbl
  next hnew =>
    constructor
    · rw [List.map_append, List.map_singleton, List.length_append, List.length_singleton,
        List.range_succ, List.map_append, htbl.ids, htbl.next, List.map_singleton]
    · rw [List.length_append, List.length_singleton, htbl.next, ← Nat.add_assoc,
        UInt16.ofNat_add (1000 + tbl.entries.length) 1]
      rfl

theorem series_register (tbl : DynTable) (series : Key) (unit : String) :
    (tbl.register series unit).entries.map DynEntry.series =
      see id (tbl.entries.map DynEntry.series) series := by
  have hiff : (tbl.entries.find? fun d => d.series = series).isSome ↔
      id series ∈ (tbl.entries.map DynEntry.series).map id := by
    rw [List.find?_isSome, List.map_id, List.mem_map]
    simp
  unfold DynTable.register see
  by_cases hmem : id series ∈ (tbl.entries.map DynEntry.series).map id
  · rw [if_pos (hiff.mpr hmem), if_pos hmem]
  · rw [if_neg (mt hiff.mp hmem), if_neg hmem, List.map_append, List.map_singleton]

theorem numbered_dynTable (s : SessionData) : Numbered (dynTable s) := by
  have hfold : ∀ (l : List (Key × String)) (tbl : DynTable), Numbered tbl →
      Numbered (l.foldl (fun tbl r => tbl.register r.1 r.2) tbl) := by
    intro l
    induction l with
    | nil => exact fun _ h => h
    | cons r l ih => exact fun tbl h => ih _ (numbered_register h r.1 r.2)
  exact hfold _ _ ⟨rfl, rfl⟩

/-- The series of the table are the ones of the session, each of them once. -/
theorem series_dynTable (s : SessionData) :
    (dynTable s).entries.map DynEntry.series = firstSeen id ((dynSeries s).map Prod.fst) := by
  have hfold : ∀ (l : List (Key × String)) (tbl : DynTable),
      (l.foldl (fun tbl r => tbl.register r.1 r.2) tbl).entries.map DynEntry.series =
        (l.map Prod.fst).foldl (see id) (tbl.entries.map DynEntry.series) := by
    intro l
    induction l with
    | nil => exact fun _ => rfl
    | cons r l ih =>
        intro tbl
        rw [List.foldl_cons, ih, series_register, List.map_cons, List.foldl_cons]
  exact hfold _ _

theorem nodup_series (s : SessionData) : ((dynTable s).entries.map DynEntry.series).Nodup := by
  rw [series_dynTable]
  simpa using nodup_map_firstSeen id ((dynSeries s).map Prod.fst)

theorem mem_series {s : SessionData} {series : Key} :
    series ∈ (dynTable s).entries.map DynEntry.series ↔ series ∈ (dynSeries s).map Prod.fst := by
  rw [series_dynTable]
  simpa using mem_map_firstSeen id (l := (dynSeries s).map Prod.fst) (k := series)

/-- There are numbers enough for the series of the session. -/
def Fits (s : SessionData) : Prop := ((dynSeries s).map Prod.fst).dedup.length ≤ 64536

theorem length_entries (s : SessionData) :
    (dynTable s).entries.length = ((dynSeries s).map Prod.fst).dedup.length := by
  rw [← List.length_map (f := DynEntry.series)]
  apply List.Perm.length_eq
  rw [List.perm_ext_iff_of_nodup (nodup_series s) (List.nodup_dedup _)]
  intro series
  rw [mem_series, List.mem_dedup]

/-! ## The table of the manifest -/

def staticTable : List (UInt16 × Key) :=
  staticMetrics.zipIdx.map fun (m, i) => (UInt16.ofNat i, ⟨m.1, m.2.1, ""⟩)

def tableOf (tbl : DynTable) : List (UInt16 × Key) :=
  staticTable ++ tbl.entries.map fun d => (d.id, d.series)

theorem ids_staticTable : staticTable.map Prod.fst = (List.range 50).map UInt16.ofNat := by
  decide

theorem ids_tableOf {tbl : DynTable} (htbl : Numbered tbl) : (tableOf tbl).map Prod.fst =
    (List.range 50).map UInt16.ofNat ++
      (List.range tbl.entries.length).map fun i => UInt16.ofNat (1000 + i) := by
  rw [tableOf, List.map_append, ids_staticTable, List.map_map, ← htbl.ids]
  rfl

/-- The numbers differ exactly as long as they do not start again. -/
theorem nodup_ids_iff {tbl : DynTable} (htbl : Numbered tbl) :
    ((tableOf tbl).map Prod.fst).Nodup ↔ tbl.entries.length ≤ 64536 := by
  have hinj : ∀ {m n : Nat}, m < 2 ^ 16 → n < 2 ^ 16 → UInt16.ofNat m = UInt16.ofNat n → m = n := by
    intro m n hm hn heq
    have hnat := congrArg UInt16.toNat heq
    rwa [UInt16.toNat_ofNat_of_lt' hm, UInt16.toNat_ofNat_of_lt' hn] at hnat
  rw [ids_tableOf htbl]
  constructor
  · intro hnodup
    by_contra hmany
    -- the number behind the last one is zero again
    have hzero : UInt16.ofNat 0 ∈ (List.range 50).map UInt16.ofNat :=
      List.mem_map_of_mem (by decide)
    have hagain : UInt16.ofNat 0 ∈
        (List.range tbl.entries.length).map fun i => UInt16.ofNat (1000 + i) :=
      List.mem_map.mpr ⟨64536, List.mem_range.mpr (by omega), by decide⟩
    exact List.disjoint_of_nodup_append hnodup hzero hagain
  · intro hfits
    refine List.Nodup.append ?_ ?_ ?_
    · decide
    · refine List.Nodup.map_on ?_ List.nodup_range
      intro i hi j hj heq
      have hlt := List.mem_range.mp hi
      have hlt' := List.mem_range.mp hj
      have := hinj (by omega) (by omega) heq
      omega
    · intro id hid hid'
      obtain ⟨i, hi, rfl⟩ := List.mem_map.mp hid
      obtain ⟨j, hj, heq⟩ := List.mem_map.mp hid'
      have hlt := List.mem_range.mp hi
      have hlt' := List.mem_range.mp hj
      have := hinj (by omega) (by omega) heq
      omega

/-! ## Reading the table back -/

theorem asU16_ofNat (id : UInt16) : asU16 (.ofNat id.toNat) = id := by
  have hlt := id.toNat_lt
  rw [asU16, Binary64.toUnsigned_ofNat (hlt.trans (by decide)), min_eq_left (by omega),
    UInt16.ofNat_toNat]

theorem readSeries_value (id : Nat) (series : Key) (unit : String) :
    readSeries (seriesDoc id series unit).value = some (.ofNat id, series) := by
  simp [readSeries, seriesDoc, Doc.value, Doc.memberValues, JVal.numAt, JVal.strAt, get_obj_cons,
    JVal.num?, JVal.asStr]

/-- The entries of the table with their units. -/
def tableEntries (tbl : DynTable) : List (UInt16 × Key × String) :=
  staticMetrics.zipIdx.map (fun (m, i) => (UInt16.ofNat i, ⟨m.1, m.2.1, ""⟩, m.2.2)) ++
    tbl.entries.map fun d => (d.id, d.series, d.unit)

theorem metricDocs_eq (tbl : DynTable) :
    metricDocs tbl = (tableEntries tbl).map fun e => seriesDoc e.1.toNat e.2.1 e.2.2 := by
  have hstatic : staticMetrics.zipIdx.map (fun (m, i) => seriesDoc i ⟨m.1, m.2.1, ""⟩ m.2.2) =
      (staticMetrics.zipIdx.map fun (m, i) =>
        ((UInt16.ofNat i, ⟨m.1, m.2.1, ""⟩, m.2.2) : UInt16 × Key × String)).map fun e =>
          seriesDoc e.1.toNat e.2.1 e.2.2 := rfl
  rw [metricDocs, tableEntries, List.map_append, ← hstatic, List.map_map]
  rfl

theorem tableEntries_map (tbl : DynTable) :
    (tableEntries tbl).map (fun e => (e.1, e.2.1)) = tableOf tbl := by
  rw [tableEntries, tableOf, staticTable, List.map_append, List.map_map, List.map_map]
  rfl

/-- Entries are read as they were written exactly if their numbers differ. -/
theorem readTable_values (entries : List (UInt16 × Key × String)) {table : List (UInt16 × Key)}
    (htable : (table.map Prod.fst).Nodup) (result : List (UInt16 × Key)) :
    readTable table (entries.map fun e => (seriesDoc e.1.toNat e.2.1 e.2.2).value) = .ok result ↔
      ((table ++ entries.map fun e => (e.1, e.2.1)).map Prod.fst).Nodup ∧
        result = table ++ entries.map fun e => (e.1, e.2.1) := by
  induction entries generalizing table with
  | nil => simp [readTable, htable, eq_comm]
  | cons e entries ih =>
      rw [List.map_cons, readTable, readSeries_value]
      dsimp only
      have hbehind : table ++ (entries.cons e).map (fun e => (e.1, e.2.1)) =
          table ++ [(e.1, e.2.1)] ++ entries.map fun e => (e.1, e.2.1) := by
        rw [List.map_cons, List.append_cons]
      rw [asU16_ofNat, hbehind]
      by_cases hmem : e.1 ∈ table.map Prod.fst
      · have htwice : ¬ ((table ++ [(e.1, e.2.1)] ++ entries.map fun e => (e.1, e.2.1)).map
            Prod.fst).Nodup := by
          intro hnodup
          rw [List.map_append, List.map_append] at hnodup
          exact List.disjoint_of_nodup_append hnodup.of_append_left hmem List.mem_cons_self
        rw [if_pos (lookup_isSome.mpr hmem)]
        exact ⟨nofun, fun h => absurd h.1 htwice⟩
      · have hmore : ((table ++ [(e.1, e.2.1)]).map Prod.fst).Nodup := by
          rw [List.map_append]
          exact htable.append (List.nodup_singleton _) (by simpa using hmem)
        rw [if_neg (mt lookup_isSome.mp hmem)]
        exact ih hmore

/-- The table of the manifest is read exactly if there are numbers enough. -/
theorem readTable_metrics (s : SessionData) (table : List (UInt16 × Key)) :
    readTable [] (Doc.itemValues (metricDocs (dynTable s))) = .ok table ↔
      Fits s ∧ table = tableOf (dynTable s) := by
  rw [Doc.itemValues_eq, metricDocs_eq, List.map_map]
  have hempty : (([] : List (UInt16 × Key)).map Prod.fst).Nodup := List.nodup_nil
  have hread := readTable_values (tableEntries (dynTable s)) hempty table
  rw [List.nil_append, tableEntries_map, nodup_ids_iff (numbered_dynTable s),
    length_entries] at hread
  exact hread

end PowerForensics.Archive

/-! ## Numbers of series

The series of a session are numbered in sixteen bits, from a base on which leaves the numbers
below to the fixed series. Nothing keeps the numbers from running out: behind the last one they
start again from zero, and the first series to get one shares it with a fixed series.
-/

namespace PowerForensics.Archive

open Session

/-- No number stands for two series. -/
structure DistinctNumbers (s : SessionData) : Prop where
  dynamic : ((dynTable s).entries.map DynEntry.id).Nodup
  fixed : ∀ d ∈ (dynTable s).entries, d.id ∉ staticTable.map Prod.fst
  injective : ∀ a b : Key, ∀ id : UInt16,
    (dynTable s).idOf a.collector a.metric a.extra = some id →
      (dynTable s).idOf b.collector b.metric b.extra = some id → a = b

theorem nodup_tableOf_iff (tbl : DynTable) : ((tableOf tbl).map Prod.fst).Nodup ↔
    (tbl.entries.map DynEntry.id).Nodup ∧
      ∀ d ∈ tbl.entries, d.id ∉ staticTable.map Prod.fst := by
  have hids : (tbl.entries.map fun d => (d.id, d.series)).map Prod.fst =
      tbl.entries.map DynEntry.id := List.map_map
  have hstatic : (staticTable.map Prod.fst).Nodup := by
    rw [ids_staticTable]
    decide
  rw [tableOf, List.map_append, hids, List.nodup_append]
  constructor
  · rintro ⟨-, hnodup, hne⟩
    exact ⟨hnodup, fun d hd hmem => hne _ hmem _ (List.mem_map_of_mem hd) rfl⟩
  · rintro ⟨hnodup, hfresh⟩
    refine ⟨hstatic, hnodup, ?_⟩
    rintro id hid _ hmem rfl
    obtain ⟨d, hd, rfl⟩ := List.mem_map.mp hmem
    exact hfresh d hd hid

/-- The number of a series is that of its entry. -/
theorem entry_of_idOf {tbl : DynTable} {a : Key} {id : UInt16}
    (hid : tbl.idOf a.collector a.metric a.extra = some id) :
    ∃ d ∈ tbl.entries, d.series = a ∧ d.id = id := by
  obtain ⟨d, hd, rfl⟩ := Option.map_eq_some_iff.mp hid
  have hseries : d.series = a := by simpa using List.find?_some hd
  exact ⟨d, List.mem_of_find?_eq_some hd, hseries, rfl⟩

theorem distinctNumbers_of_nodup {s : SessionData}
    (hnodup : ((tableOf (dynTable s)).map Prod.fst).Nodup) : DistinctNumbers s := by
  obtain ⟨hdynamic, hfixed⟩ := (nodup_tableOf_iff _).mp hnodup
  refine ⟨hdynamic, hfixed, ?_⟩
  intro a b id ha hb
  obtain ⟨d, hd, rfl, rfl⟩ := entry_of_idOf ha
  obtain ⟨e, he, rfl, heq⟩ := entry_of_idOf hb
  rw [List.inj_on_of_nodup_map hdynamic he hd heq]

theorem fits_of_distinctNumbers {s : SessionData} (h : DistinctNumbers s) : Fits s := by
  have hnodup := (nodup_tableOf_iff _).mpr ⟨h.dynamic, h.fixed⟩
  rw [nodup_ids_iff (numbered_dynTable s), length_entries] at hnodup
  exact hnodup

/-- No number stands for two series exactly if the session has no more series without a fixed
number than there are numbers from the base on. -/
theorem distinctNumbers_iff (s : SessionData) : DistinctNumbers s ↔ Fits s := by
  refine ⟨fits_of_distinctNumbers, fun hfits => distinctNumbers_of_nodup ?_⟩
  rw [nodup_ids_iff (numbered_dynTable s), length_entries]
  exact hfits

/-! ## A session with too many series -/

/-- Devices that request power, each with a name of its own. -/
def deviceNames (n : Nat) : List String :=
  (List.range n).map fun i => String.ofList (List.replicate i 'a')

theorem nodup_deviceNames (n : Nat) : (deviceNames n).Nodup := by
  refine List.Nodup.map ?_ List.nodup_range
  intro i j heq
  simpa using congrArg (fun s => s.toList.length) heq

def manyDevices (n : Nat) : SessionData :=
  { (default : SessionData) with
    usb := [{ (default : UsbPoint) with powerDevices := deviceNames n }] }

theorem series_manyDevices (n : Nat) :
    ∀ name ∈ deviceNames n, (⟨"usb", "power_device", name⟩ : Key) ∈
      (dynSeries (manyDevices n)).map Prod.fst := by
  intro name hname
  have husb : ((⟨"usb", "power_device", name⟩, "bool") : Key × String) ∈
      usbSeries (manyDevices n) := by
    rw [usbSeries, List.mem_flatMap]
    refine ⟨_, List.mem_singleton.mpr rfl, List.mem_append_right _ ?_⟩
    exact List.mem_map.mpr ⟨name, hname, rfl⟩
  exact List.mem_map_of_mem (List.mem_append_right _ husb)

theorem not_fits_manyDevices {n : Nat} (hmany : 64536 < n) : ¬ Fits (manyDevices n) := by
  intro hfits
  have hkeys : ((deviceNames n).map fun name => (⟨"usb", "power_device", name⟩ : Key)).Nodup := by
    refine List.Nodup.map ?_ (nodup_deviceNames n)
    intro a b heq
    exact (Key.mk.inj heq).2.2
  have hsub : ((deviceNames n).map fun name => (⟨"usb", "power_device", name⟩ : Key)) ⊆
      ((dynSeries (manyDevices n)).map Prod.fst).dedup := by
    intro series hseries
    obtain ⟨name, hname, rfl⟩ := List.mem_map.mp hseries
    exact List.mem_dedup.mpr (series_manyDevices n name hname)
  have hlen := (List.subperm_of_subset hkeys hsub).length_le
  rw [List.length_map, deviceNames, List.length_map, List.length_range] at hlen
  rw [Fits] at hfits
  omega

theorem not_distinct_manyDevices : ¬ DistinctNumbers (manyDevices 64537) := by
  intro h
  exact not_fits_manyDevices (by decide) (fits_of_distinctNumbers h)

end PowerForensics.Archive
