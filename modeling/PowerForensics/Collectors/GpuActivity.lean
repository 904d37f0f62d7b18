import PowerForensics.Collectors.GpuLine
import PowerForensics.Core.Stats
import PowerForensics.System.Lookup
import PowerForensics.System.Merging
import PowerForensics.System.Tables

/-! # Activity of the graphics adapters

The readings of the engines are added up by adapter, and by process within it. The adapters of the
inventory get what was added up for them, and what belongs to none of them gets a view of its own.
An adapter for which nothing was read gets zeros.
-/

namespace PowerForensics.Collectors

open Stats Merging

/-! ## Aggregation -/

/-- The identifier of an adapter. -/
structure Luid where
  low : UInt32
  high : UInt32
  deriving DecidableEq

def MemKey.luid (k : MemKey) : Luid := ⟨k.luidLow, k.luidHigh⟩

def GpuAdapter.luid (a : GpuAdapter) : Luid := ⟨a.luidLow, a.luidHigh⟩

/-- Numbers whose patterns are in a total order. -/
class Ranked (α : Type) extends Scalar α where
  totalCmp : α → α → Ordering

instance : Ranked Binary64 where
  totalCmp := Binary64.totalCmp

instance : Ranked ℚ where
  totalCmp := compare

/-- What is added up for an adapter. -/
structure Activity (α : Type) where
  totalUtil : α
  util3d : α
  utilCompute : α
  utilDecode : α
  utilCodec : α
  utilCopy : α
  utilOther : α
  enginesActive : Nat
  enginesSeen : Nat
  memDedicatedMb : α
  memSharedMb : α
  topPids : List (UInt32 × α)

/-- An order in which the entries of a hash map come. -/
structure HashOrder where
  order : ∀ {β : Type}, List β → List β
  perm : ∀ {β : Type} (entries : List β), (order entries).Perm entries

variable {α : Type} [Ranked α]

def activeUtilPct : α := 0.5

namespace Activity

def idle : Activity α := ⟨0.0, 0.0, 0.0, 0.0, 0.0, 0.0, 0.0, 0, 0, 0.0, 0.0, []⟩

def addEngine (st : Activity α) (engineClass : EngineClass) (util : α) : Activity α :=
  let st := { st with
    totalUtil := st.totalUtil + util
    enginesSeen := st.enginesSeen + 1
    enginesActive := if activeUtilPct < util then st.enginesActive + 1 else st.enginesActive }
  match engineClass with
  | .render3D => { st with util3d := st.util3d + util }
  | .compute => { st with utilCompute := st.utilCompute + util }
  | .videoDecode => { st with utilDecode := st.utilDecode + util }
  | .videoCodec => { st with utilCodec := st.utilCodec + util }
  | .copy => { st with utilCopy := st.utilCopy + util }
  | .other => { st with utilOther := st.utilOther + util }

def addMem (st : Activity α) (ded sh : Option α) : Activity α :=
  { st with
    memDedicatedMb := ded.elim st.memDedicatedMb (st.memDedicatedMb + ·)
    memSharedMb := sh.elim st.memSharedMb (st.memSharedMb + ·) }

def addEngines (engines : List (EngineKey × α)) : List (Luid × Activity α) :=
  Tables.gather (fun e => e.1.luid)
    (fun st e => (st.getD idle).addEngine e.1.engineClass e.2) engines

def addMems (table : List (Luid × Activity α)) (mems : List (MemKey × Option α × Option α)) :
    List (Luid × Activity α) :=
  mems.foldl (fun table m =>
    Tables.upsert m.1.luid (fun st => (st.getD idle).addMem m.2.1 m.2.2) table) table

/-- The five processes of an adapter with most activity, none with next to nothing. -/
def topPidsOf (pidUtil : List ((Luid × UInt32) × α)) (luid : Luid) : List (UInt32 × α) :=
  let pids := (pidUtil.filter fun e => e.1.1 = luid).map fun e => (e.1.2, e.2)
  let sorted := pids.insertionSort fun p q => Ranked.totalCmp q.2 p.2 ≠ .gt
  (sorted.filter fun p => (0.01 : α) < p.2).take 5

def aggregate (order : HashOrder) (engines : List (EngineKey × α))
    (mems : List (MemKey × Option α × Option α)) : List (Luid × Activity α) :=
  let pidUtil := Tables.gather (fun e => (e.1.luid, e.1.pid))
    (fun util e => util.getD 0.0 + e.2) engines
  (addMems (addEngines engines) mems).map fun entry =>
    (entry.1, { entry.2 with topPids := topPidsOf (order.order pidUtil) entry.1 })

/-- The activity of all classes of engines. -/
def classUtils (st : Activity α) : α :=
  st.util3d + st.utilCompute + st.utilDecode + st.utilCodec + st.utilCopy + st.utilOther

end Activity

/-! ## Views -/

def isDiscreteHeuristic (vendorId : UInt32) (dedicatedMb : UInt64) : Bool :=
  if vendorId = 0x10DE then true
  else if vendorId = 0x1414 then false
  else if vendorId = 0x8086 then false
  else 1024 < dedicatedMb

structure ActivityView (α : Type) where
  adapter : GpuAdapter
  discrete : Bool
  stats : Activity α

/-- An adapter that the inventory does not have. -/
def unknownAdapter (luid : Luid) : GpuAdapter where
  index := 0
  name := "unknown-luid-" ++
    .ofList ((List.range 8).reverse.map fun i => Json.hexChar (luid.low.toNat / 16 ^ i % 16))
  vendorId := 0
  deviceId := 0
  dedicatedMb := 0
  luidLow := luid.low
  luidHigh := luid.high

def knownViews (adapters : List GpuAdapter) (agg : List (Luid × Activity α)) :
    List (ActivityView α) :=
  adapters.map fun a =>
    ⟨a, isDiscreteHeuristic a.vendorId a.dedicatedMb, (agg.lookup a.luid).getD .idle⟩

def unknownViews (adapters : List GpuAdapter) (agg : List (Luid × Activity α)) :
    List (ActivityView α) :=
  (agg.filter fun e => e.1 ∉ adapters.map GpuAdapter.luid).map fun e =>
    ⟨unknownAdapter e.1, false, e.2⟩

def assemble (order : HashOrder) (adapters : List GpuAdapter) (engVals : List (EngineKey × α))
    (memVals : List (MemKey × Option α × Option α)) : List (ActivityView α) :=
  let agg := Activity.aggregate order engVals memVals
  stableSort (fun v => v.adapter.index.toNat)
    (knownViews adapters agg ++ unknownViews adapters (order.order agg))

/-! ## Samples -/

/-- Counters that cannot be read are left out. -/
def engineValues (engines : List (EngineKey × Nat)) (readDouble : Nat → Option α) :
    List (EngineKey × α) :=
  engines.filterMap fun e => (readDouble e.2).map fun v => (e.1, v)

def memValues (mems : List (MemKey × Nat × Nat)) (readDouble : Nat → Option α) :
    List (MemKey × Option α × Option α) :=
  mems.filterMap fun m =>
    let d := (readDouble m.2.1).map (· / (1024.0 * 1024.0))
    let s := (readDouble m.2.2).map (· / (1024.0 * 1024.0))
    if d.isSome || s.isSome then some (m.1, d, s) else none

def Activity.stats (st : Activity Binary64) : AdapterStats where
  totalUtil := st.totalUtil
  util3d := st.util3d
  utilCompute := st.utilCompute
  utilDecode := st.utilDecode
  utilCodec := st.utilCodec
  utilCopy := st.utilCopy
  utilOther := st.utilOther
  enginesActive := .ofNat st.enginesActive
  enginesSeen := .ofNat st.enginesSeen
  memDedicatedMb := st.memDedicatedMb
  memSharedMb := st.memSharedMb
  topPids := st.topPids

def awakeVerdict (totalUtil : Binary64) (enginesActive : Nat)
    (topPid : Option (UInt32 × Binary64)) : AwakeVerdict :=
  if activeUtilPct < totalUtil then
    let percent (x : Binary64) : String := .ofList (x.fixed 1)
    let who := topPid.elim "" fun p => s!"; top pid {p.1} ({percent p.2}%)"
    { active := true
      confidence := ⟨"high", by decide⟩
      evidence := s!"{enginesActive} engines over 0.5% in window (total {percent totalUtil}%){who}" }
  else
    { active := false
      confidence := ⟨"low", by decide⟩
      evidence := "no engine activity in window; adapter may still be powered (no power sensor)" }

def ActivityView.view (v : ActivityView Binary64) : AdapterView where
  adapter := v.adapter
  discrete := v.discrete
  stats := v.stats.stats
  awake := awakeVerdict v.stats.totalUtil v.stats.enginesActive v.stats.topPids.head?

/-- The sample of a reading, with the values of its counters. -/
def GpuReading.sample (r : GpuReading) (order : HashOrder) (readDouble : Nat → Option Binary64) :
    GpuSample where
  adapters := (assemble order r.adapters (engineValues r.rates.table.engines readDouble)
    (memValues r.rates.table.mems readDouble)).map ActivityView.view
  stale := r.stale

/-! ## What is added up -/

namespace Activity

theorem idle_totalUtil : (idle : Activity ℚ).totalUtil = 0 := by norm_num [idle]

/-- A reading goes to the total and to its class. -/
theorem addEngine_totalUtil (st : Activity α) (engineClass : EngineClass) (util : α) :
    (st.addEngine engineClass util).totalUtil = st.totalUtil + util := by
  cases engineClass <;> rfl

theorem addEngine_classUtils {st : Activity ℚ} (hst : st.classUtils = st.totalUtil)
    (engineClass : EngineClass) (util : ℚ) :
    (st.addEngine engineClass util).classUtils = (st.addEngine engineClass util).totalUtil := by
  rw [addEngine_totalUtil, ← hst]
  cases engineClass <;> simp only [addEngine, classUtils] <;> ring

theorem sum_addEngines (engines : List (EngineKey × ℚ)) :
    ((addEngines engines).map fun e => e.2.totalUtil).sum = (engines.map Prod.snd).sum := by
  induction engines using List.reverseRecOn with
  | nil => rfl
  | append_singleton engines e ih =>
      rw [addEngines, Tables.gather_concat, List.map_append, List.sum_append, ← ih,
        List.map_singleton, List.sum_singleton]
      refine Tables.sum_upsert (fun st => ?_) _
      rw [addEngine_totalUtil]
      cases st with
      | none => rw [Option.getD_none, Option.elim_none, idle_totalUtil]
      | some st => rfl

theorem sum_addMems (table : List (Luid × Activity ℚ))
    (mems : List (MemKey × Option ℚ × Option ℚ)) :
    ((addMems table mems).map fun e => e.2.totalUtil).sum =
      (table.map fun e => e.2.totalUtil).sum := by
  induction mems generalizing table with
  | nil => rfl
  | cons m mems ih =>
      refine (ih _).trans ((Tables.sum_upsert (fun st => ?_) table).trans (add_zero _))
      cases st with
      | none => exact idle_totalUtil.trans (add_zero 0).symm
      | some st => exact (add_zero _).symm

theorem classUtils_addEngines (engines : List (EngineKey × ℚ)) :
    ∀ e ∈ addEngines engines, e.2.classUtils = e.2.totalUtil := by
  induction engines using List.reverseRecOn with
  | nil =>
      intro e he
      exact absurd he List.not_mem_nil
  | append_singleton engines e ih =>
      rw [addEngines, Tables.gather_concat]
      refine Tables.forall_upsert (P := fun st : Activity ℚ => st.classUtils = st.totalUtil) ih
        fun st hst => addEngine_classUtils ?_ _ _
      cases st with
      | none => norm_num [classUtils, idle]
      | some st => exact hst st rfl

theorem classUtils_addMems {table : List (Luid × Activity ℚ)}
    (htable : ∀ e ∈ table, e.2.classUtils = e.2.totalUtil)
    (mems : List (MemKey × Option ℚ × Option ℚ)) :
    ∀ e ∈ addMems table mems, e.2.classUtils = e.2.totalUtil := by
  induction mems generalizing table with
  | nil => exact htable
  | cons m mems ih =>
      apply ih
      refine Tables.forall_upsert (P := fun st : Activity ℚ => st.classUtils = st.totalUtil) htable
        fun st hst => ?_
      cases st with
      | none => norm_num [classUtils, idle, addMem]
      | some st => exact hst st rfl

theorem mem_keys_addMems {table : List (Luid × Activity α)}
    {mems : List (MemKey × Option α × Option α)} {luid : Luid} :
    luid ∈ (addMems table mems).map Prod.fst ↔
      luid ∈ table.map Prod.fst ∨ luid ∈ mems.map fun m => m.1.luid := by
  induction mems generalizing table with
  | nil => simp [addMems]
  | cons m mems ih =>
      refine ih.trans ?_
      rw [Tables.mem_keys_upsert, List.map_cons, List.mem_cons, or_assoc, or_left_comm]

theorem nodup_keys_addMems {table : List (Luid × Activity α)}
    (htable : (table.map Prod.fst).Nodup) (mems : List (MemKey × Option α × Option α)) :
    ((addMems table mems).map Prod.fst).Nodup := by
  induction mems generalizing table with
  | nil => exact htable
  | cons m mems ih => exact ih (Tables.nodup_keys_upsert htable)

section

variable (order : HashOrder) (engines : List (EngineKey × α))
  (mems : List (MemKey × Option α × Option α))

theorem keys_aggregate : (aggregate order engines mems).map Prod.fst =
    (addMems (addEngines engines) mems).map Prod.fst := by
  rw [aggregate, List.map_map]
  rfl

theorem nodup_keys_aggregate : ((aggregate order engines mems).map Prod.fst).Nodup := by
  rw [keys_aggregate]
  exact nodup_keys_addMems (Tables.nodup_keys_gather engines) mems

theorem mem_keys_aggregate {luid : Luid} :
    luid ∈ (aggregate order engines mems).map Prod.fst ↔
      luid ∈ engines.map (fun e => e.1.luid) ∨ luid ∈ mems.map fun m => m.1.luid := by
  rw [keys_aggregate, mem_keys_addMems, addEngines, Tables.mem_keys_gather]

end

theorem sum_aggregate (order : HashOrder) (engines : List (EngineKey × ℚ))
    (mems : List (MemKey × Option ℚ × Option ℚ)) :
    ((aggregate order engines mems).map fun e => e.2.totalUtil).sum =
      (engines.map Prod.snd).sum := by
  rw [aggregate, List.map_map, ← sum_addEngines, ← sum_addMems _ mems]
  rfl

theorem classUtils_aggregate (order : HashOrder) (engines : List (EngineKey × ℚ))
    (mems : List (MemKey × Option ℚ × Option ℚ)) :
    ∀ e ∈ aggregate order engines mems, e.2.classUtils = e.2.totalUtil := by
  intro e he
  obtain ⟨entry, hentry, rfl⟩ := List.mem_map.mp he
  exact classUtils_addMems (classUtils_addEngines engines) mems entry hentry

end Activity

/-! ## What the views have -/

theorem assemble_perm (order : HashOrder) (adapters : List GpuAdapter)
    (engVals : List (EngineKey × α)) (memVals : List (MemKey × Option α × Option α)) :
    (assemble order adapters engVals memVals).Perm
      (knownViews adapters (Activity.aggregate order engVals memVals) ++
        unknownViews adapters (Activity.aggregate order engVals memVals)) := by
  refine (stableSort_perm _ _).trans (List.Perm.append_left _ ?_)
  exact ((order.perm _).filter _).map _

/-- An adapter has a view if the inventory has it or a value was read for it. -/
theorem exists_view_iff {order : HashOrder} {adapters : List GpuAdapter}
    {engVals : List (EngineKey × α)} {memVals : List (MemKey × Option α × Option α)} {luid : Luid} :
    (∃ v ∈ assemble order adapters engVals memVals, v.adapter.luid = luid) ↔
      luid ∈ adapters.map GpuAdapter.luid ∨ luid ∈ engVals.map (fun e => e.1.luid) ∨
        luid ∈ memVals.map fun m => m.1.luid := by
  rw [← Activity.mem_keys_aggregate order engVals memVals]
  simp only [(assemble_perm order adapters engVals memVals).mem_iff, List.mem_append]
  constructor
  · rintro ⟨v, hknown | hunknown, rfl⟩
    · obtain ⟨a, ha, rfl⟩ := List.mem_map.mp hknown
      exact Or.inl (List.mem_map_of_mem ha)
    · obtain ⟨e, he, rfl⟩ := List.mem_map.mp hunknown
      exact Or.inr (List.mem_map_of_mem (List.mem_filter.mp he).1)
  · intro hluid
    by_cases hknown : luid ∈ adapters.map GpuAdapter.luid
    · obtain ⟨a, ha, rfl⟩ := List.mem_map.mp hknown
      exact ⟨_, Or.inl (List.mem_map_of_mem ha), rfl⟩
    · obtain ⟨e, he, rfl⟩ := List.mem_map.mp (hluid.resolve_left hknown)
      refine ⟨_, Or.inr (List.mem_map_of_mem (List.mem_filter.mpr ⟨he, ?_⟩)), rfl⟩
      exact decide_eq_true hknown

/-- Nothing that was read is lost, or counted twice. -/
theorem sum_views {adapters : List GpuAdapter} (hdistinct : (adapters.map GpuAdapter.luid).Nodup)
    (order : HashOrder) (engVals : List (EngineKey × ℚ))
    (memVals : List (MemKey × Option ℚ × Option ℚ)) :
    ((assemble order adapters engVals memVals).map fun v => v.stats.totalUtil).sum =
      (engVals.map Prod.snd).sum := by
  -- a view of the inventory has the entry of its adapter, and the other views have the rest
  have hknown : (knownViews adapters (Activity.aggregate order engVals memVals)).map
      (fun v => v.stats.totalUtil) = (adapters.map GpuAdapter.luid).map fun luid =>
        ((Activity.aggregate order engVals memVals).lookup luid).elim 0 Activity.totalUtil := by
    rw [knownViews, List.map_map, List.map_map]
    refine List.map_congr_left fun a _ => ?_
    rw [Function.comp_apply, Function.comp_apply]
    cases (Activity.aggregate order engVals memVals).lookup a.luid with
    | none => exact Activity.idle_totalUtil
    | some st => rfl
  have hunknown : (unknownViews adapters (Activity.aggregate order engVals memVals)).map
      (fun v => v.stats.totalUtil) = ((Activity.aggregate order engVals memVals).filter
        fun e => e.1 ∉ adapters.map GpuAdapter.luid).map fun e => e.2.totalUtil := by
    rw [unknownViews, List.map_map]
    rfl
  rw [((assemble_perm order adapters engVals memVals).map _).sum_eq, List.map_append,
    List.sum_append, hknown, hunknown, ← Activity.sum_aggregate order engVals memVals]
  exact Tables.sum_lookup_rest Activity.totalUtil
    (Activity.nodup_keys_aggregate order engVals memVals) hdistinct

theorem classUtils_views {adapters : List GpuAdapter} {order : HashOrder}
    {engVals : List (EngineKey × ℚ)} {memVals : List (MemKey × Option ℚ × Option ℚ)} :
    ∀ v ∈ assemble order adapters engVals memVals, v.stats.classUtils = v.stats.totalUtil := by
  intro v hv
  have hclasses := Activity.classUtils_aggregate order engVals memVals
  rw [(assemble_perm order adapters engVals memVals).mem_iff, List.mem_append] at hv
  rcases hv with hknown | hunknown
  · obtain ⟨a, -, rfl⟩ := List.mem_map.mp hknown
    cases hfound : (Activity.aggregate order engVals memVals).lookup a.luid with
    | none => norm_num [Activity.classUtils, Activity.idle]
    | some st =>
        have hmem := (Lookup.lookup_eq_some
          (Activity.nodup_keys_aggregate order engVals memVals)).mp hfound
        exact hclasses _ hmem
  · obtain ⟨e, he, rfl⟩ := List.mem_map.mp hunknown
    exact hclasses e (List.mem_filter.mp he).1

/-! ## Adapters that are not read -/

/-- An adapter has engine counters, and none of them can be read. -/
def Unread (c : GpuCounters) (readDouble : Nat → Option Binary64) (luid : Luid) : Prop :=
  (∃ e ∈ c.engines, e.1.luid = luid) ∧ ∀ e ∈ c.engines, e.1.luid = luid → readDouble e.2 = none

def utilKeys : List String :=
  ["total_util_pct", "util_3d", "util_compute", "util_decode", "util_codec", "util_copy",
    "util_other"]

/-- The line has no utilization of an adapter. -/
def NoUtilization (sample : GpuSample) (luid : Luid) : Prop :=
  ∀ v ∈ sample.adapters, v.adapter.luid = luid →
    ∀ key ∈ utilKeys, (adapterDoc v).value.numIn key = none

theorem noUtilization_iff {sample : GpuSample} {luid : Luid} :
    NoUtilization sample luid ↔ ¬ ∃ v ∈ sample.adapters, v.adapter.luid = luid := by
  constructor
  · rintro h ⟨v, hv, hluid⟩
    have htotal := h v hv hluid "total_util_pct" (by simp [utilKeys])
    have hwritten : (adapterDoc v).value.numIn "total_util_pct" = some v.stats.totalUtil := rfl
    rw [hwritten] at htotal
    cases htotal
  · intro hnone v hv hluid
    exact absurd ⟨v, hv, hluid⟩ hnone

/-- The adapters of a sample are those of the inventory and of the values that were read. -/
theorem exists_sample_view_iff {r : GpuReading} {order : HashOrder}
    {readDouble : Nat → Option Binary64} {luid : Luid} :
    (∃ v ∈ (r.sample order readDouble).adapters, v.adapter.luid = luid) ↔
      luid ∈ r.adapters.map GpuAdapter.luid ∨
        luid ∈ (engineValues r.rates.table.engines readDouble).map (fun e => e.1.luid) ∨
        luid ∈ (memValues r.rates.table.mems readDouble).map fun m => m.1.luid := by
  rw [← exists_view_iff]
  simp only [GpuReading.sample, List.mem_map, exists_exists_and_eq_and]
  rfl

theorem not_mem_engineValues {c : GpuCounters} {readDouble : Nat → Option Binary64} {luid : Luid}
    (hunread : Unread c readDouble luid) :
    luid ∉ (engineValues c.engines readDouble).map fun e => e.1.luid := by
  intro hmem
  obtain ⟨_, hvalue, rfl⟩ := List.mem_map.mp hmem
  obtain ⟨e, he, hread⟩ := List.mem_filterMap.mp hvalue
  obtain ⟨v, hv, rfl⟩ := Option.map_eq_some_iff.mp hread
  rw [hunread.2 e he rfl] at hv
  cases hv

/-- For an inventory of distinct adapters, the views add up to what was read, and each view's
classes to its total. The line has no utilization of an adapter whose counters could not be read
exactly if the inventory has no such adapter and no memory was read for one either. -/
theorem gpu_activity_iff {r : GpuReading} (hdistinct : (r.adapters.map GpuAdapter.luid).Nodup)
    (order : HashOrder) :
    (∀ (engVals : List (EngineKey × ℚ)) (memVals : List (MemKey × Option ℚ × Option ℚ)),
      ((assemble order r.adapters engVals memVals).map fun v => v.stats.totalUtil).sum =
          (engVals.map Prod.snd).sum ∧
        ∀ v ∈ assemble order r.adapters engVals memVals,
          v.stats.classUtils = v.stats.totalUtil) ∧
      ∀ readDouble : Nat → Option Binary64,
        (∀ luid, Unread r.rates.table readDouble luid →
          NoUtilization (r.sample order readDouble) luid) ↔
        ∀ luid, Unread r.rates.table readDouble luid →
          luid ∉ r.adapters.map GpuAdapter.luid ∧
            luid ∉ (memValues r.rates.table.mems readDouble).map fun m => m.1.luid := by
  refine ⟨fun engVals memVals =>
    ⟨sum_views hdistinct order engVals memVals, classUtils_views⟩, fun readDouble => ?_⟩
  refine forall_congr' fun luid => imp_congr_right fun hunread => ?_
  rw [noUtilization_iff, exists_sample_view_iff, not_or,
    or_iff_right (not_mem_engineValues hunread)]

/-- One adapter and one counter of its engines. -/
def oneAdapter : GpuReading where
  rates := ⟨⟨[(⟨⟨4, 1, 0⟩, .render3D⟩, 1)], []⟩, none⟩
  adapters := [⟨0, "gpu", 0x10DE, 1, 4096, 1, 0⟩]
  stale := false

/-- Two adapters with a counter each, and a counter of one that has been taken out. -/
def twoAdapters : GpuReading where
  rates := ⟨⟨[(⟨⟨4, 1, 0⟩, .render3D⟩, 1), (⟨⟨5, 2, 0⟩, .copy⟩, 2), (⟨⟨6, 3, 0⟩, .compute⟩, 3)],
    []⟩, none⟩
  adapters := [⟨0, "discrete", 0x10DE, 1, 4096, 1, 0⟩, ⟨1, "integrated", 0x8086, 2, 128, 2, 0⟩]
  stale := false

/-- The counters up to a handle can be read. -/
def readUpTo (handle n : Nat) : Option Binary64 := if n ≤ handle then some 2.5 else none

/-- With the counters of both adapters read the line has no utilization that was not read, and
with one of them unread it has one. -/
theorem gpu_activity_iff_twoAdapters :
    ((assemble ⟨id, fun _ => .refl _⟩ twoAdapters.adapters
      [(⟨⟨4, 1, 0⟩, .render3D⟩, (5 / 2 : ℚ)), (⟨⟨5, 2, 0⟩, .copy⟩, 1), (⟨⟨7, 1, 0⟩, .copy⟩, 2)]
        []).map fun v => v.stats.totalUtil).sum = 11 / 2 ∧
      (∀ luid, Unread twoAdapters.rates.table (readUpTo 2) luid →
        NoUtilization (twoAdapters.sample ⟨id, fun _ => .refl _⟩ (readUpTo 2)) luid) ∧
      ¬∀ luid, Unread twoAdapters.rates.table (readUpTo 1) luid →
        NoUtilization (twoAdapters.sample ⟨id, fun _ => .refl _⟩ (readUpTo 1)) luid := by
  obtain ⟨hconserved, hunread⟩ := gpu_activity_iff (r := twoAdapters) (by decide)
    ⟨id, fun _ => .refl _⟩
  refine ⟨?_, (hunread (readUpTo 2)).mpr ?_, fun hsilent => ?_⟩
  · rw [(hconserved _ _).1]
    norm_num
  · rintro luid ⟨⟨e, he, rfl⟩, hall⟩
    have hread : ∀ e ∈ twoAdapters.rates.table.engines, readUpTo 2 e.2 = none →
        e.1.luid ∉ twoAdapters.adapters.map GpuAdapter.luid := by decide
    exact ⟨hread e he (hall e he rfl), List.not_mem_nil⟩
  · have hlost : Unread twoAdapters.rates.table (readUpTo 1) ⟨2, 0⟩ := by
      refine ⟨⟨(⟨⟨5, 2, 0⟩, .copy⟩, 2), by simp [twoAdapters], rfl⟩, ?_⟩
      decide
    exact ((hunread (readUpTo 1)).mp hsilent _ hlost).1 (by decide)

/-- The counter cannot be read, and the adapter is as idle as one without activity. -/
theorem unread_idle : ¬ ∀ (r : GpuReading) (order : HashOrder)
    (readDouble : Nat → Option Binary64), (r.adapters.map GpuAdapter.luid).Nodup →
      ∀ luid, Unread r.rates.table readDouble luid →
        NoUtilization (r.sample order readDouble) luid := by
  intro h
  have hunread : Unread oneAdapter.rates.table (fun _ => none) ⟨1, 0⟩ :=
    ⟨⟨_, List.mem_cons_self, rfl⟩, fun _ _ _ => rfl⟩
  have hsilent := h oneAdapter ⟨id, fun _ => .refl _⟩ (fun _ => none) (by decide) ⟨1, 0⟩ hunread
  have hview := noUtilization_iff.mp hsilent
  exact hview (exists_sample_view_iff.mpr (Or.inl List.mem_cons_self))

end PowerForensics.Collectors
