import PowerForensics.Collectors.Graphics
import PowerForensics.Core.HeadedLine
import PowerForensics.Core.StoredDoc

/-! # Graphics collector: its line

A sample has the adapters with what was added up for them. Every utilization is written, also
when nothing was active, and comes back as the derived reading it is.
-/

namespace PowerForensics.Collectors

open Json Session

/-! ## Samples -/

structure AdapterStats where
  totalUtil : Binary64
  util3d : Binary64
  utilCompute : Binary64
  utilDecode : Binary64
  utilCodec : Binary64
  utilCopy : Binary64
  utilOther : Binary64
  enginesActive : UInt64
  enginesSeen : UInt64
  memDedicatedMb : Binary64
  memSharedMb : Binary64
  topPids : List (UInt32 × Binary64)

structure AwakeVerdict where
  active : Bool
  confidence : PlainName
  evidence : String

structure AdapterView where
  adapter : GpuAdapter
  discrete : Bool
  stats : AdapterStats
  awake : AwakeVerdict

structure GpuSample where
  adapters : List AdapterView
  stale : Bool

/-! ## The line -/

def vendorName (vendorId : UInt32) : String :=
  if vendorId = 0x10DE then "NVIDIA"
  else if vendorId = 0x1002 then "AMD"
  else if vendorId = 0x8086 then "Intel"
  else if vendorId = 0x1414 then "Microsoft"
  else "unknown"

/-- What is added up is always there. -/
def aggregate (v : Binary64) : Doc := .jsonNum (some v) .derived .notSampled ""

def topPidDoc (entry : UInt32 × Binary64) : Doc :=
  .obj [("pid", .digits entry.1.toNat), ("util_pct", aggregate entry.2)]

def awakeDoc (awake : AwakeVerdict) : Doc :=
  .obj [("active", .bool awake.active), ("confidence", .name awake.confidence),
    ("evidence", .str awake.evidence)]

def adapterDoc (v : AdapterView) : Doc :=
  let a := v.adapter
  let s := v.stats
  .obj [("index", .digits a.index.toNat), ("name", .str a.name),
    ("vendor", .str (vendorName a.vendorId)), ("vendor_id", .str (hexText a.vendorId)),
    ("device_id", .str (hexText a.deviceId)), ("dedicated_mb", .digits a.dedicatedMb.toNat),
    ("luid", .str (hexText a.luidLow ++ "/" ++ hexText a.luidHigh)),
    ("discrete", .bool v.discrete), ("total_util_pct", aggregate s.totalUtil),
    ("util_3d", aggregate s.util3d), ("util_compute", aggregate s.utilCompute),
    ("util_decode", aggregate s.utilDecode), ("util_codec", aggregate s.utilCodec),
    ("util_copy", aggregate s.utilCopy), ("util_other", aggregate s.utilOther),
    ("engines_active", .digits s.enginesActive.toNat),
    ("engines_seen", .digits s.enginesSeen.toNat),
    ("mem_dedicated_mb", aggregate s.memDedicatedMb), ("mem_shared_mb", aggregate s.memSharedMb),
    ("top_pids", .arr (s.topPids.map topPidDoc)), ("awake", awakeDoc v.awake)]

def gpuMembers (sample : GpuSample) (stamp : ClockStamp) (tStartMs tEndMs : UInt64) :
    List (String × Doc) :=
  [("collector", .str "gpu"), ("wall_ms", .digits stamp.wallMillis.toNat),
    ("mono_ms", .digits stamp.monoMillis.toNat), ("t_start_ms", .digits tStartMs.toNat),
    ("t_end_ms", .digits tEndMs.toNat), ("stale", .bool sample.stale),
    ("adapters", .arr (sample.adapters.map adapterDoc))]

def gpuJson (sample : GpuSample) (stamp : ClockStamp) (tStartMs tEndMs : UInt64) : Doc :=
  .obj (gpuMembers sample stamp tStartMs tEndMs)

/-! ## The line is read -/

structure AdapterStats.Finite (s : AdapterStats) : Prop where
  sums : ∀ x ∈ [s.totalUtil, s.util3d, s.utilCompute, s.utilDecode, s.utilCodec, s.utilCopy,
    s.utilOther, s.memDedicatedMb, s.memSharedMb], x.isFinite = true
  topPids : ∀ entry ∈ s.topPids, entry.2.isFinite = true

def GpuSample.Finite (sample : GpuSample) : Prop := ∀ v ∈ sample.adapters, v.stats.Finite

section Reads

variable {levels : Nat}

theorem stored_aggregate {x : Binary64} (hx : x.isFinite = true) :
    (aggregate x).Stored (levels + 2) := by
  refine Doc.stored_jsonNum (fun y hy => ?_) _ _ (JVal.cut_of_short (by decide))
  obtain rfl := Option.some.inj hy
  exact hx

theorem stored_topPidDoc {entry : UInt32 × Binary64} (hentry : entry.2.isFinite = true) :
    (topPidDoc entry).Stored (levels + 3) := by
  refine Doc.stored_obj ?_ (by simp)
  simp only [List.forall_mem_cons, List.not_mem_nil, false_imp_iff, implies_true, and_true]
  exact ⟨Doc.stored_digits _, stored_aggregate hentry⟩

theorem stored_awakeDoc (awake : AwakeVerdict) : (awakeDoc awake).Stored (levels + 2) := by
  refine Doc.stored_obj ?_ (by simp)
  simp only [List.forall_mem_cons, List.not_mem_nil, false_imp_iff, implies_true, and_true]
  exact ⟨Doc.stored_bool _, Doc.stored_str _, Doc.stored_str _⟩

theorem stored_adapterDoc {v : AdapterView} (hv : v.stats.Finite) :
    (adapterDoc v).Stored (levels + 5) := by
  have hpids : (Doc.arr (v.stats.topPids.map topPidDoc)).Stored (levels + 4) :=
    Doc.stored_map fun entry hentry => stored_topPidDoc (hv.topPids entry hentry)
  have hsum : ∀ x ∈ [v.stats.totalUtil, v.stats.util3d, v.stats.utilCompute, v.stats.utilDecode,
      v.stats.utilCodec, v.stats.utilCopy, v.stats.utilOther, v.stats.memDedicatedMb,
      v.stats.memSharedMb], (aggregate x).Stored (levels + 4) :=
    fun x hx => stored_aggregate (hv.sums x hx)
  refine Doc.stored_obj ?_ (by simp)
  simp only [List.forall_mem_cons, List.not_mem_nil, false_imp_iff, implies_true, and_true]
    at hsum ⊢
  obtain ⟨htotal, h3d, hcompute, hdecode, hcodec, hcopy, hother, hdedicated, hshared⟩ := hsum
  exact ⟨Doc.stored_digits _, Doc.stored_str _, Doc.stored_str _, Doc.stored_str _,
    Doc.stored_str _, Doc.stored_digits _, Doc.stored_str _, Doc.stored_bool _, htotal, h3d,
    hcompute, hdecode, hcodec, hcopy, hother, Doc.stored_digits _, Doc.stored_digits _, hdedicated,
    hshared, hpids,
    stored_awakeDoc _⟩

theorem stored_gpuJson {sample : GpuSample} (hsample : sample.Finite) (stamp : ClockStamp)
    (tStartMs tEndMs : UInt64) : (gpuJson sample stamp tStartMs tEndMs).Stored 7 := by
  have hadapters : (Doc.arr (sample.adapters.map adapterDoc)).Stored 6 :=
    Doc.stored_map fun v hv => stored_adapterDoc (hsample v hv)
  refine Doc.stored_obj ?_ (by simp [gpuMembers])
  simp only [gpuMembers, List.forall_mem_cons, List.not_mem_nil, false_imp_iff, implies_true,
    and_true]
  exact ⟨Doc.stored_str _, Doc.stored_digits _, Doc.stored_digits _, Doc.stored_digits _,
    Doc.stored_digits _, Doc.stored_bool _, hadapters⟩

theorem reads_gpuJson {sample : GpuSample} (hsample : sample.Finite) (stamp : ClockStamp)
    (tStartMs tEndMs : UInt64) : (gpuJson sample stamp tStartMs tEndMs).Reads 7 :=
  (stored_gpuJson hsample stamp tStartMs tEndMs).1

end Reads

/-! ## The line is loaded -/

def loadedSum (stamp : ClockStamp) (x : Binary64) : Telemetry Binary64 := .derived x "gpu" stamp

/-- A count is written without an envelope. -/
def loadedCount (stamp : ClockStamp) (n : UInt64) : Telemetry Binary64 :=
  bareNumber (ofU64 n) "gpu" stamp

def loadedAwake (awake : AwakeVerdict) : AwakeRec :=
  ⟨awake.active, awake.confidence.text, awake.evidence⟩

/-- An adapter as the loader has it. -/
def loadedAdapter (stamp : ClockStamp) (v : AdapterView) : GpuAdapterPoint where
  name := v.adapter.name
  discrete := v.discrete
  totalUtil := loadedSum stamp v.stats.totalUtil
  memDedicatedMb := loadedSum stamp v.stats.memDedicatedMb
  memSharedMb := loadedSum stamp v.stats.memSharedMb
  util3d := loadedSum stamp v.stats.util3d
  utilCompute := loadedSum stamp v.stats.utilCompute
  utilDecode := loadedSum stamp v.stats.utilDecode
  utilCodec := loadedSum stamp v.stats.utilCodec
  utilCopy := loadedSum stamp v.stats.utilCopy
  utilOther := loadedSum stamp v.stats.utilOther
  enginesActive := loadedCount stamp v.stats.enginesActive
  enginesSeen := loadedCount stamp v.stats.enginesSeen
  awake := some (loadedAwake v.awake)
  topPids := v.stats.topPids.map fun entry => (entry.1, loadedSum stamp entry.2)

theorem ev_aggregate {obj : JVal} {key : String} {x : Binary64}
    (hget : obj.get key = some (aggregate x).value) (stamp : ClockStamp) :
    ev obj key "gpu" stamp = .ok (loadedSum stamp x) := by
  have hderived : obj.get key =
      some (Doc.readingNum .shown (.derived x) .notSampled).value := hget
  exact ev_readingNum hderived nofun "gpu" stamp

theorem loadTopPid_topPidDoc (stamp : ClockStamp) (entry : UInt32 × Binary64) :
    loadTopPid stamp (topPidDoc entry).value = .ok (entry.1, loadedSum stamp entry.2) := by
  have hpid : (topPidDoc entry).value.numAt "pid" = some (ofU32 entry.1) := rfl
  have hutil : ev (topPidDoc entry).value "util_pct" "gpu" stamp =
      .ok (loadedSum stamp entry.2) := ev_aggregate rfl stamp
  rw [loadTopPid, hpid, hutil, Option.map_some, asU32_ofU32]
  rfl

theorem loadAdapter_adapterDoc (stamp : ClockStamp) (v : AdapterView) :
    loadAdapter stamp (adapterDoc v).value = .ok (loadedAdapter stamp v) := by
  have hsum : ∀ (key : String) (x : Binary64),
      (adapterDoc v).value.get key = some (aggregate x).value →
        ev (adapterDoc v).value key "gpu" stamp = .ok (loadedSum stamp x) :=
    fun key x hget => ev_aggregate hget stamp
  have hcount : ∀ (key : String) (n : UInt64),
      (adapterDoc v).value.get key = some (Doc.digits n.toNat).value →
        ev (adapterDoc v).value key "gpu" stamp = .ok (loadedCount stamp n) :=
    fun key n hget => ev_digits hget "gpu" stamp
  have hpids : ((adapterDoc v).value.arrAt "top_pids").getD [] =
      (v.stats.topPids.map topPidDoc).map Doc.value := arrAt_arr rfl
  have hload : ((v.stats.topPids.map topPidDoc).map Doc.value).mapM (loadTopPid stamp) =
      (.ok (v.stats.topPids.map fun entry => (entry.1, loadedSum stamp entry.2)) :
        Except Fault _) := by
    rw [List.map_map]
    exact mapM_map_ok fun entry _ => loadTopPid_topPidDoc stamp entry
  rw [loadAdapter, hpids, hload, hsum "total_util_pct" v.stats.totalUtil rfl,
    hsum "mem_dedicated_mb" v.stats.memDedicatedMb rfl,
    hsum "mem_shared_mb" v.stats.memSharedMb rfl, hsum "util_3d" v.stats.util3d rfl,
    hsum "util_compute" v.stats.utilCompute rfl, hsum "util_decode" v.stats.utilDecode rfl,
    hsum "util_codec" v.stats.utilCodec rfl, hsum "util_copy" v.stats.utilCopy rfl,
    hsum "util_other" v.stats.utilOther rfl, hcount "engines_active" v.stats.enginesActive rfl,
    hcount "engines_seen" v.stats.enginesSeen rfl]
  rfl

section Line

variable (sample : GpuSample) (stamp : ClockStamp) (tStartMs tEndMs : UInt64)

/-- A sample as the loader has it. -/
def loadedGpu (at_ : ClockStamp) (window : Window) : GpuPoint where
  t := seconds at_.monoMillis
  window := window
  stale := sample.stale
  adapters := sample.adapters.map (loadedAdapter at_)

theorem loadGpu_gpuJson (s : SessionData) (at_ : ClockStamp) :
    loadGpu (gpuJson sample stamp tStartMs tEndMs).value at_ s =
      .ok { s with gpu := s.gpu ++ [loadedGpu sample at_
        (windowOf (gpuJson sample stamp tStartMs tEndMs).value)] } := by
  have hadapters : ((gpuJson sample stamp tStartMs tEndMs).value.arrAt "adapters").getD [] =
      (sample.adapters.map adapterDoc).map Doc.value := arrAt_arr rfl
  have hload : ((sample.adapters.map adapterDoc).map Doc.value).mapM (loadAdapter at_) =
      (.ok (sample.adapters.map (loadedAdapter at_)) : Except Fault _) := by
    rw [List.map_map]
    exact mapM_map_ok fun v _ => loadAdapter_adapterDoc at_ v
  rw [loadGpu, hadapters, hload]
  rfl

end Line

end PowerForensics.Collectors
