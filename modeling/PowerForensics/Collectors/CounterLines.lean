import PowerForensics.Collectors.ProcLine

/-! # Lines of counters

The samples of the processor, of the disks and of the profiler itself are rates that the system
counts. A counter that is not ready yet has an envelope with a reason; what is estimated is never
called measured.
-/

namespace PowerForensics.Collectors

open Json

/-! ## Samples -/

structure CoreSample where
  instanceName : String
  utility : Option Binary64
  performance : Option Binary64
  freqMhz : Option Binary64
  parking : Option Binary64

structure CpuSample where
  /-- The names are those of a table. -/
  totals : List (PlainName × Option Binary64)
  cores : List CoreSample
  energyInstance : Option String
  pkgPowerW : Option Binary64
  pkgDerivedW : Option Binary64

/-- The first total of a name. -/
def CpuSample.total (sample : CpuSample) (field : String) : Option Binary64 :=
  (sample.totals.find? fun t => t.1.text = field).bind Prod.snd

structure DiskStats where
  instanceName : String
  isTotal : Bool
  diskTime : Option Binary64
  idleTime : Option Binary64
  avgQueue : Option Binary64
  curQueue : Option Binary64
  reads : Option Binary64
  writes : Option Binary64
  readBps : Option Binary64
  writeBps : Option Binary64
  readLatMs : Option Binary64
  writeLatMs : Option Binary64

structure StorageSample where
  disks : List DiskStats

structure SelfSample where
  cpuPct : Reading Binary64
  wsMb : Reading Binary64
  privMb : Reading Binary64
  ioReadB : Reading UInt64
  ioWriteB : Reading UInt64
  threads : Reading UInt32
  ctxSwitches : Reading Binary64

/-! ## The lines -/

/-- What the line of every collector begins with. -/
def lineHead (collector : String) (stamp : ClockStamp) (tStartMs tEndMs : UInt64) :
    List (String × Doc) :=
  [("collector", .str collector), ("wall_ms", .digits stamp.wallMillis.toNat),
    ("mono_ms", .digits stamp.monoMillis.toNat), ("t_start_ms", .digits tStartMs.toNat),
    ("t_end_ms", .digits tEndMs.toNat)]

def cpuNum (v : Option Binary64) : Doc :=
  .jsonNum v .measured .notSampled "counter missing or not ready"

def cpuEst (v : Option Binary64) : Doc :=
  .jsonNum v .estimated .notSampled "energy instance missing or warming up"

def coreDoc (c : CoreSample) : Doc :=
  .obj [("inst", .str c.instanceName), ("utility", cpuNum c.utility),
    ("performance", cpuNum c.performance), ("freq_mhz", cpuNum c.freqMhz),
    ("parking", cpuNum c.parking)]

/-- The envelope of a power without an energy meter has no kind and no quality. -/
def noEnergy : Doc :=
  .obj [("v", .null), ("p", .str "unavailable"), ("reason", .str "no package energy instance")]

def energyDoc (sample : CpuSample) : Doc :=
  match sample.energyInstance with
  | some inst =>
      .obj [("instance", .str inst), ("pkg_power_w", cpuEst sample.pkgPowerW),
        ("pkg_derived_w", cpuEst sample.pkgDerivedW)]
  | none => .obj [("instance", .null), ("pkg_power_w", noEnergy), ("pkg_derived_w", noEnergy)]

def totalsDoc (sample : CpuSample) : Doc :=
  .obj (sample.totals.map fun t => (t.1.text, cpuNum t.2))

def cpuJson (sample : CpuSample) (stamp : ClockStamp) (tStartMs tEndMs : UInt64) : Doc :=
  .obj (lineHead "cpu" stamp tStartMs tEndMs ++
    [("totals", totalsDoc sample), ("cores", .arr (sample.cores.map coreDoc)),
      ("energy", energyDoc sample)])

def diskNum (prov : Provenance) (v : Option Binary64) : Doc :=
  .jsonNum v prov .notSampled "counter not ready"

/-- A latency is converted to milliseconds, so it is derived. -/
def diskDoc (d : DiskStats) : Doc :=
  .obj [("instance", .str d.instanceName), ("total", .bool d.isTotal),
    ("disk_time_pct", diskNum .measured d.diskTime), ("idle_pct", diskNum .measured d.idleTime),
    ("avg_queue", diskNum .measured d.avgQueue), ("cur_queue", diskNum .measured d.curQueue),
    ("reads_s", diskNum .measured d.reads), ("writes_s", diskNum .measured d.writes),
    ("read_bps", diskNum .measured d.readBps), ("write_bps", diskNum .measured d.writeBps),
    ("read_lat_ms", diskNum .derived d.readLatMs),
    ("write_lat_ms", diskNum .derived d.writeLatMs)]

def storageJson (sample : StorageSample) (stamp : ClockStamp) (tStartMs tEndMs : UInt64) : Doc :=
  .obj (lineHead "storage" stamp tStartMs tEndMs ++
    [("disks", .arr (sample.disks.map diskDoc))])

/-- What the profiler cannot read of itself is a failed read. -/
def selfNum {α : Type} (write : α → Doc) (r : Reading α) : Doc :=
  .readingNum write r .transientError

def selfJson (s : SelfSample) (stamp : ClockStamp) (tStartMs tEndMs : UInt64) : Doc :=
  .obj (lineHead "self" stamp tStartMs tEndMs ++
    [("cpu_pct", selfNum .shown s.cpuPct), ("ws_mb", selfNum .shown s.wsMb),
      ("priv_mb", selfNum .shown s.privMb), ("io_read_b", selfNum (.digits ·.toNat) s.ioReadB),
      ("io_write_b", selfNum (.digits ·.toNat) s.ioWriteB),
      ("threads", selfNum (.digits ·.toNat) s.threads),
      ("ctx_switches_s", selfNum .shown s.ctxSwitches)])

/-! ## Samples that can be written -/

def Known (v : Option Binary64) : Prop := ∀ x ∈ v, x.isFinite = true

def CoreSample.Finite (c : CoreSample) : Prop :=
  ∀ v ∈ [c.utility, c.performance, c.freqMhz, c.parking], Known v

structure CpuSample.Finite (sample : CpuSample) : Prop where
  totals : ∀ t ∈ sample.totals, Known t.2
  cores : ∀ c ∈ sample.cores, c.Finite
  power : ∀ v ∈ [sample.pkgPowerW, sample.pkgDerivedW], Known v

def DiskStats.Finite (d : DiskStats) : Prop :=
  ∀ v ∈ [d.diskTime, d.idleTime, d.avgQueue, d.curQueue, d.reads, d.writes, d.readBps, d.writeBps,
    d.readLatMs, d.writeLatMs], Known v

def StorageSample.Finite (sample : StorageSample) : Prop := ∀ d ∈ sample.disks, d.Finite

/-- Its numbers are finite, and its reasons, which are texts of the program, can be kept. -/
structure SelfSample.Writable (s : SelfSample) : Prop where
  finite : ∀ r ∈ [s.cpuPct, s.wsMb, s.privMb, s.ctxSwitches], Known r.value
  rates : ∀ r ∈ [s.cpuPct, s.wsMb, s.privMb, s.ctxSwitches], Doc.Readable r
  counts : ∀ r ∈ [s.ioReadB, s.ioWriteB], Doc.Readable r
  threads : Doc.Readable s.threads

/-! ## The lines are stored -/

section Stored

variable {levels : Nat}

theorem stored_lineHead (collector : String) (stamp : ClockStamp) (tStartMs tEndMs : UInt64) :
    ∀ m ∈ lineHead collector stamp tStartMs tEndMs, m.2.Stored (levels + 1) := by
  simp only [lineHead, List.forall_mem_cons, List.not_mem_nil, false_imp_iff, implies_true,
    and_true]
  exact ⟨Doc.stored_str _, Doc.stored_digits _, Doc.stored_digits _, Doc.stored_digits _,
    Doc.stored_digits _⟩

/-- A line is stored if what is behind its head is. -/
theorem stored_headed (collector : String) (stamp : ClockStamp) (tStartMs tEndMs : UInt64)
    {fields : List (String × Doc)} (hfields : ∀ m ∈ fields, m.2.Stored (levels + 1))
    (hkeys : "reason" ∉ fields.map Prod.fst) :
    (Doc.obj (lineHead collector stamp tStartMs tEndMs ++ fields)).Stored (levels + 2) := by
  apply Doc.stored_obj
  · intro m hm
    obtain hm | hm := List.mem_append.mp hm
    · exact stored_lineHead _ _ _ _ m hm
    · exact hfields m hm
  · rw [List.map_append, List.mem_append, not_or]
    exact ⟨by simp [lineHead], hkeys⟩

theorem stored_cpuNum {v : Option Binary64} (hv : Known v) : (cpuNum v).Stored (levels + 2) :=
  Doc.stored_jsonNum hv _ _ (JVal.cut_of_short (by decide))

theorem stored_cpuEst {v : Option Binary64} (hv : Known v) : (cpuEst v).Stored (levels + 2) :=
  Doc.stored_jsonNum hv _ _ (JVal.cut_of_short (by decide))

theorem stored_coreDoc {c : CoreSample} (hc : c.Finite) : (coreDoc c).Stored (levels + 3) := by
  refine Doc.stored_obj ?_ (by simp)
  simp only [List.forall_mem_cons, List.not_mem_nil, false_imp_iff, implies_true, and_true]
  exact ⟨Doc.stored_str _, stored_cpuNum (hc _ (by simp)), stored_cpuNum (hc _ (by simp)),
    stored_cpuNum (hc _ (by simp)), stored_cpuNum (hc _ (by simp))⟩

theorem stored_noEnergy : noEnergy.Stored (levels + 2) := by
  apply Doc.stored_obj_of_reason
  · simp only [List.forall_mem_cons, List.not_mem_nil, false_imp_iff, implies_true, and_true]
    exact ⟨Doc.stored_null, Doc.stored_str _, Doc.stored_str _⟩
  · intro reason hreason
    obtain rfl : "no package energy instance" = reason := Option.some.inj hreason
    exact JVal.cut_of_short (by decide)

theorem stored_energyDoc {sample : CpuSample}
    (hpower : ∀ v ∈ [sample.pkgPowerW, sample.pkgDerivedW], Known v) :
    (energyDoc sample).Stored (levels + 3) := by
  unfold energyDoc
  split
  next inst =>
    refine Doc.stored_obj ?_ (by simp)
    simp only [List.forall_mem_cons, List.not_mem_nil, false_imp_iff, implies_true, and_true]
    exact ⟨Doc.stored_str _, stored_cpuEst (hpower _ (by simp)),
      stored_cpuEst (hpower _ (by simp))⟩
  next =>
    refine Doc.stored_obj ?_ (by simp)
    simp only [List.forall_mem_cons, List.not_mem_nil, false_imp_iff, implies_true, and_true]
    exact ⟨Doc.stored_null, stored_noEnergy, stored_noEnergy⟩

/-- No total is a string, whatever its name is. -/
theorem stored_totalsDoc {sample : CpuSample} (htotals : ∀ t ∈ sample.totals, Known t.2) :
    (totalsDoc sample).Stored (levels + 3) := by
  apply Doc.stored_obj_of_reason
  · intro m hm
    obtain ⟨t, ht, rfl⟩ := List.mem_map.mp hm
    exact stored_cpuNum (htotals t ht)
  · intro reason hreason
    obtain ⟨v, hget, hstr⟩ := Option.bind_eq_some_iff.mp hreason
    obtain ⟨p, hp, rfl⟩ := Option.map_eq_some_iff.mp hget
    obtain ⟨m, hm, rfl⟩ := Doc.mem_memberValues (List.mem_of_find?_eq_some hp)
    obtain ⟨t, -, rfl⟩ := List.mem_map.mp hm
    cases ht : t.2 with
    | none =>
        rw [ht] at hstr
        cases hstr
    | some x =>
        rw [ht] at hstr
        cases hstr

section Lines

variable (stamp : ClockStamp) (tStartMs tEndMs : UInt64)

theorem stored_cpuJson {sample : CpuSample} (hsample : sample.Finite) :
    (cpuJson sample stamp tStartMs tEndMs).Stored 5 := by
  have hcores : (Doc.arr (sample.cores.map coreDoc)).Stored 4 :=
    Doc.stored_map fun c hc => stored_coreDoc (hsample.cores c hc)
  refine stored_headed _ _ _ _ ?_ (by simp)
  simp only [List.forall_mem_cons, List.not_mem_nil, false_imp_iff, implies_true, and_true]
  exact ⟨stored_totalsDoc hsample.totals, hcores, stored_energyDoc hsample.power⟩

theorem stored_diskDoc {d : DiskStats} (hd : d.Finite) : (diskDoc d).Stored (levels + 3) := by
  have hnum : ∀ prov, ∀ v ∈ [d.diskTime, d.idleTime, d.avgQueue, d.curQueue, d.reads, d.writes,
      d.readBps, d.writeBps, d.readLatMs, d.writeLatMs], (diskNum prov v).Stored (levels + 2) :=
    fun prov v hv => Doc.stored_jsonNum (hd v hv) _ _ (JVal.cut_of_short (by decide))
  refine Doc.stored_obj ?_ (by simp)
  simp only [List.forall_mem_cons, List.not_mem_nil, false_imp_iff, implies_true, and_true]
    at hnum ⊢
  obtain ⟨h1, h2, h3, h4, h5, h6, h7, h8, -, -⟩ := hnum .measured
  obtain ⟨-, -, -, -, -, -, -, -, h9, h10⟩ := hnum .derived
  exact ⟨Doc.stored_str _, Doc.stored_bool _, h1, h2, h3, h4, h5, h6, h7, h8, h9, h10⟩

theorem stored_storageJson {sample : StorageSample} (hsample : sample.Finite) :
    (storageJson sample stamp tStartMs tEndMs).Stored 5 := by
  refine stored_headed _ _ _ _ ?_ (by simp)
  simp only [List.forall_mem_cons, List.not_mem_nil, false_imp_iff, implies_true, and_true]
  exact Doc.stored_map fun d hd => stored_diskDoc (hsample d hd)

theorem stored_selfJson {s : SelfSample} (hs : s.Writable) :
    (selfJson s stamp tStartMs tEndMs).Stored 3 := by
  have hnum : ∀ r ∈ [s.cpuPct, s.wsMb, s.privMb, s.ctxSwitches],
      (selfNum .shown r).Stored 2 := fun r hr =>
    Doc.stored_readingNum (fun x hx => Doc.stored_shown (hs.finite r hr x hx)) (hs.rates r hr) _
  have hcount : ∀ r ∈ [s.ioReadB, s.ioWriteB], (selfNum (.digits ·.toNat) r).Stored 2 := fun r hr =>
    Doc.stored_readingNum (fun _ _ => Doc.stored_digits _) (hs.counts r hr) _
  have hthreads : (selfNum (.digits ·.toNat) s.threads).Stored 2 :=
    Doc.stored_readingNum (fun _ _ => Doc.stored_digits _) hs.threads _
  refine stored_headed _ _ _ _ ?_ (by simp)
  simp only [List.forall_mem_cons, List.not_mem_nil, false_imp_iff, implies_true, and_true]
  exact ⟨hnum _ (by simp), hnum _ (by simp), hnum _ (by simp), hcount _ (by simp),
    hcount _ (by simp), hthreads, hnum _ (by simp)⟩

end Lines

end Stored

end PowerForensics.Collectors
