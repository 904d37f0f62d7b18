import PowerForensics.Core.HeadedLine
import PowerForensics.Core.StoredDoc

/-! # Process collector: its line

A sample has the busiest processes and the totals over all of them. Its line is loaded as a
point with the same processes in the same order. Integers of more than 53 bits are rounded
on the way, since the file has them as floating point numbers.
-/

namespace PowerForensics.Collectors

open Json Session

/-! ## Samples -/

structure ProcInfo where
  pid : UInt32
  ppid : UInt32
  name : String
  threads : UInt32
  accessible : Bool
  startUnixMs : Option UInt64
  cpuPct : Option Binary64
  cpu100nsTotal : Option UInt64
  wsMb : Option Binary64
  privMb : Option Binary64
  ioRBps : Option Binary64
  ioWBps : Option Binary64
  ioRTotal : Option UInt64
  ioWTotal : Option UInt64
  handles : Option UInt32

structure ProcSample where
  totalProcs : UInt64
  totalThreads : UInt64
  inaccessible : UInt64
  truncated : Bool
  top : List ProcInfo

/-! ## The line -/

/-- An integer, or null. -/
def plainInt (v : Option Nat) : Doc :=
  match v with
  | some n => .digits n
  | none => .null

/-- Why a field of a process is absent. -/
def absence (p : ProcInfo) : UnavailKind × String :=
  if p.accessible then (.notSampled, "warming up (first tick)")
  else (.unsupported, "process inaccessible (protected/system)")

def procOpt (p : ProcInfo) (prov : Provenance) (v : Option Binary64) : Doc :=
  .jsonNum v prov (absence p).1 (absence p).2

def procOptU (p : ProcInfo) (v : Option UInt64) : Doc := procOpt p .measured (v.map ofU64)

/-- The rates are written together or not at all. -/
def ioRates (p : ProcInfo) : Doc × Doc :=
  match p.ioRBps, p.ioWBps with
  | some r, some w => (procOpt p .derived (some r), procOpt p .derived (some w))
  | _, _ => (procOpt p .measured none, procOpt p .measured none)

def procDoc (p : ProcInfo) : Doc :=
  .obj [("pid", .digits p.pid.toNat), ("ppid", .digits p.ppid.toNat), ("name", .str p.name),
    ("threads", .digits p.threads.toNat), ("accessible", .bool p.accessible),
    ("start_unix_ms", plainInt (p.startUnixMs.map UInt64.toNat)),
    ("cpu_pct", procOpt p .derived p.cpuPct), ("cpu_100ns_total", procOptU p p.cpu100nsTotal),
    ("ws_mb", procOpt p .measured p.wsMb), ("priv_mb", procOpt p .measured p.privMb),
    ("io_r_bps", (ioRates p).1), ("io_w_bps", (ioRates p).2),
    ("io_r_total", procOptU p p.ioRTotal), ("io_w_total", procOptU p p.ioWTotal),
    ("handles", plainInt (p.handles.map UInt32.toNat))]

def procMembers (sample : ProcSample) (stamp : ClockStamp) (tStartMs tEndMs : UInt64) :
    List (String × Doc) :=
  [("collector", .str "proc"), ("wall_ms", .digits stamp.wallMillis.toNat),
    ("mono_ms", .digits stamp.monoMillis.toNat), ("t_start_ms", .digits tStartMs.toNat),
    ("t_end_ms", .digits tEndMs.toNat), ("total_procs", .digits sample.totalProcs.toNat),
    ("total_threads", .digits sample.totalThreads.toNat),
    ("inaccessible", .digits sample.inaccessible.toNat), ("truncated", .bool sample.truncated),
    ("top", .arr (sample.top.map procDoc))]

def procJson (sample : ProcSample) (stamp : ClockStamp) (tStartMs tEndMs : UInt64) : Doc :=
  .obj (procMembers sample stamp tStartMs tEndMs)

/-! ## The line is read -/

def ProcInfo.Finite (p : ProcInfo) : Prop :=
  ∀ v ∈ [p.cpuPct, p.wsMb, p.privMb, p.ioRBps, p.ioWBps], ∀ x ∈ v, x.isFinite = true

def ProcSample.Finite (sample : ProcSample) : Prop := ∀ p ∈ sample.top, p.Finite

section Reads

variable {levels : Nat}

theorem stored_plainInt (v : Option Nat) : (plainInt v).Stored (levels + 1) := by
  cases v with
  | none => exact Doc.stored_null
  | some n => exact Doc.stored_digits n

theorem absence_short (p : ProcInfo) : (absence p).2.utf8ByteSize ≤ reasonLimit := by
  unfold absence
  split
  · decide
  · decide

theorem stored_procOptU (p : ProcInfo) (v : Option UInt64) :
    (procOptU p v).Stored (levels + 2) := by
  refine Doc.stored_jsonNum (fun x hx => ?_) _ _ (JVal.cut_of_short (absence_short p))
  obtain ⟨n, -, rfl⟩ := Option.mem_map.mp hx
  exact Binary64.isFinite_ofNat n.toNat_lt

theorem stored_procDoc {p : ProcInfo} (hp : p.Finite) : (procDoc p).Stored (levels + 3) := by
  have hopt : ∀ (prov : Provenance), ∀ v ∈ [p.cpuPct, p.wsMb, p.privMb, p.ioRBps, p.ioWBps],
      (procOpt p prov v).Stored (levels + 2) :=
    fun prov v hv => Doc.stored_jsonNum (hp v hv) _ _ (JVal.cut_of_short (absence_short p))
  have hnone : (procOpt p .measured none).Stored (levels + 2) :=
    Doc.stored_jsonNum (fun _ h => by cases h) _ _ (JVal.cut_of_short (absence_short p))
  have hrates : (ioRates p).1.Stored (levels + 2) ∧ (ioRates p).2.Stored (levels + 2) := by
    unfold ioRates
    split
    next r w hr hw =>
      exact ⟨hr ▸ hopt _ _ (by simp), hw ▸ hopt _ _ (by simp)⟩
    next => exact ⟨hnone, hnone⟩
  refine Doc.stored_obj ?_ (by simp)
  simp only [List.forall_mem_cons, List.not_mem_nil, false_imp_iff, implies_true, and_true]
  exact ⟨Doc.stored_digits _, Doc.stored_digits _, Doc.stored_str _, Doc.stored_digits _,
    Doc.stored_bool _, stored_plainInt _, hopt _ _ (by simp), stored_procOptU _ _,
    hopt _ _ (by simp), hopt _ _ (by simp), hrates.1, hrates.2, stored_procOptU _ _,
    stored_procOptU _ _, stored_plainInt _⟩

theorem stored_procJson {sample : ProcSample} (hsample : sample.Finite) (stamp : ClockStamp)
    (tStartMs tEndMs : UInt64) : (procJson sample stamp tStartMs tEndMs).Stored 5 := by
  have htop : (Doc.arr (sample.top.map procDoc)).Stored 4 :=
    Doc.stored_map fun p hp => stored_procDoc (hsample p hp)
  refine Doc.stored_obj ?_ (by simp [procMembers])
  simp only [procMembers, List.forall_mem_cons, List.not_mem_nil, false_imp_iff, implies_true,
    and_true]
  exact ⟨Doc.stored_str _, Doc.stored_digits _, Doc.stored_digits _, Doc.stored_digits _,
    Doc.stored_digits _, Doc.stored_digits _, Doc.stored_digits _, Doc.stored_digits _,
    Doc.stored_bool _, htop⟩

theorem reads_procJson {sample : ProcSample} (hsample : sample.Finite) (stamp : ClockStamp)
    (tStartMs tEndMs : UInt64) : (procJson sample stamp tStartMs tEndMs).Reads 5 :=
  (stored_procJson hsample stamp tStartMs tEndMs).1

end Reads

/-! ## The line is loaded -/

theorem absence_kept (p : ProcInfo) :
    truncate reasonLimit (absence p).2.toList = some (absence p).2.toList :=
  truncate_reason (absence_short p)

/-- A process as the loader has it. -/
def loadedProc (stamp : ClockStamp) (p : ProcInfo) : ProcEntry where
  pid := p.pid
  ppid := p.ppid
  name := p.name
  startUnixMs := p.startUnixMs.map readBack
  exitUnixMs := none
  cpu := loadedReading (optReading .derived (absence p).2 p.cpuPct) (absence p).1 "proc" stamp

theorem optMs_plainInt {obj : JVal} {key : String} {v : Option UInt64}
    (hget : obj.get key = some (plainInt (v.map UInt64.toNat)).value) :
    optMs obj key = v.map readBack := by
  rw [optMs, JVal.numAt, hget]
  cases v <;> rfl

theorem loadProc_procDoc (stamp : ClockStamp) (p : ProcInfo) :
    loadProc stamp (procDoc p).value = .ok (loadedProc stamp p) := by
  have hpid : (procDoc p).value.numAt "pid" = some (ofU32 p.pid) := rfl
  have hppid : (procDoc p).value.numAt "ppid" = some (ofU32 p.ppid) := rfl
  have hname : (procDoc p).value.strAt "name" = some p.name := rfl
  have hstart : optMs (procDoc p).value "start_unix_ms" = p.startUnixMs.map readBack :=
    optMs_plainInt rfl
  have hexit : optMs (procDoc p).value "exit_unix_ms" = none := rfl
  have hcpu : ev (procDoc p).value "cpu_pct" "proc" stamp = .ok
      (loadedReading (optReading .derived (absence p).2 p.cpuPct) (absence p).1 "proc" stamp) := by
    have hget : (procDoc p).value.get "cpu_pct" = some
        (Doc.jsonNum p.cpuPct .derived (absence p).1 (absence p).2).value := rfl
    exact ev_jsonNum hget nofun (absence_kept p) "proc" stamp
  rw [loadProc, hcpu, hpid, hppid, hname, hstart, hexit]
  simp only [Option.map_some, Option.getD_some, asU32_ofU32]
  rfl

section Line

variable (sample : ProcSample) (stamp : ClockStamp) (tStartMs tEndMs : UInt64)

/-- A sample as the loader has it. -/
def loadedProcs (at_ : ClockStamp) (window : Window) : ProcPoint where
  t := seconds at_.monoMillis
  window := window
  totalThreads := some (readBack sample.totalThreads)
  inaccessible := some (readBack sample.inaccessible)
  truncated := some sample.truncated
  top := sample.top.map (loadedProc at_)

theorem loadProcs_procJson (s : SessionData) (at_ : ClockStamp) :
    loadProcs (procJson sample stamp tStartMs tEndMs).value at_ s =
      .ok { s with procs := s.procs ++ [loadedProcs sample at_
        (windowOf (procJson sample stamp tStartMs tEndMs).value)] } := by
  have htop : ((procJson sample stamp tStartMs tEndMs).value.arrAt "top").getD [] =
      (sample.top.map procDoc).map Doc.value := arrAt_arr rfl
  have hload : ((sample.top.map procDoc).map Doc.value).mapM (loadProc at_) =
      (.ok (sample.top.map (loadedProc at_)) : Except Fault _) := by
    rw [List.map_map]
    exact mapM_map_ok fun p _ => loadProc_procDoc at_ p
  rw [loadProcs, htop, hload]
  rfl

end Line

end PowerForensics.Collectors
