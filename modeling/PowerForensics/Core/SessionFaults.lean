import PowerForensics.Core.SessionLoader

/-! # When a record is loaded

A loader of a record cannot fail except on a reason that has a character across the
byte where reasons are cut. The envelopes that a record holds for its collector are
listed here, and a record is loaded exactly if all their reasons can be kept.
-/

namespace PowerForensics.Session

open Json

/-! ## Calls that succeed -/

section Calls

variable {ε α β : Type}

theorem isOk_bind (x : Except ε α) (f : α → Except ε β) :
    (x >>= f).isOk = true ↔ ∃ a, x = .ok a ∧ (f a).isOk = true := by
  cases x with
  | ok a => simp [bind, Except.bind]
  | error e => simp [bind, Except.bind, Except.isOk, Except.toBool]

theorem bind_eq_ok {x : Except ε α} {f : α → Except ε β} {b : β} :
    (x >>= f) = .ok b ↔ ∃ a, x = .ok a ∧ f a = .ok b := by
  cases x with
  | ok a => simp [bind, Except.bind]
  | error e => simp [bind, Except.bind]

theorem mapError_eq_ok {ε' : Type} {x : Except ε α} {f : ε → ε'} {a : α} :
    x.mapError f = .ok a ↔ x = .ok a := by
  cases x <;> simp [Except.mapError]

/-- A value that is missing is an error. -/
theorem elim_eq_ok {x : Option α} {e : ε} {a : α} :
    x.elim (Except.error e) Except.ok = .ok a ↔ x = some a := by
  cases x <;> simp

theorem exists_eq_ok (x : Except ε α) : (∃ a, x = .ok a) ↔ x.isOk = true := by
  cases x <;> simp [Except.isOk, Except.toBool]

@[simp] theorem isOk_ok (a : α) : (Except.ok a : Except ε α).isOk = true := rfl

@[simp] theorem isOk_pure (a : α) : (pure a : Except ε α).isOk = true := rfl

@[simp] theorem isOk_error (e : ε) : (Except.error e : Except ε α).isOk = false := rfl

@[simp] theorem isOk_map (f : α → β) (x : Except ε α) : (f <$> x).isOk = x.isOk := by
  cases x <;> rfl

/-- A call followed by calls that do not depend on its value succeeds with all of them. -/
theorem isOk_bind_of {x : Except ε α} {f : α → Except ε β} {P : Prop}
    (hf : ∀ a, (f a).isOk = true ↔ P) : (x >>= f).isOk = true ↔ x.isOk = true ∧ P := by
  simp only [isOk_bind, hf, exists_and_right, exists_eq_ok]

theorem isOk_mapM (f : α → Except ε β) (l : List α) :
    (l.mapM f).isOk = true ↔ ∀ a ∈ l, (f a).isOk = true := by
  induction l with
  | nil => simp
  | cons a l ih =>
      rw [List.mapM_cons, List.forall_mem_cons]
      apply isOk_bind_of
      intro b
      rw [isOk_bind_of (P := True) (fun _ => by simp), ih, and_true]

end Calls

/-! ## Reasons that can be kept -/

/-- The reason that an envelope without a value is stored with. -/
def absentReason (inner : Option JVal) : Option String :=
  if (inner.bind JVal.num?).isSome ∨ (inner.bind (·.numAt "v")).isSome then none
  else some (storedReason inner)

/-- The reason is short enough, or no character lies across the byte where it is cut. -/
def Keepable (inner : Option JVal) : Prop :=
  ∀ reason ∈ absentReason inner, (truncate reasonLimit reason.toList).isSome

instance (inner : Option JVal) : Decidable (Keepable inner) :=
  inferInstanceAs (Decidable (∀ reason ∈ absentReason inner, _))

theorem truncate_of_short {n : Nat} {cs : List Char}
    (hshort : (String.ofList cs).utf8ByteSize ≤ n) : truncate n cs = some cs := by
  induction cs generalizing n with
  | nil => cases n <;> rfl
  | cons c cs ih =>
      have hsize : (String.ofList (c :: cs)).utf8ByteSize =
          c.utf8Size + (String.ofList cs).utf8ByteSize := by
        rw [String.ofList_cons, String.utf8ByteSize_append, String.utf8ByteSize_singleton]
      have hpos := c.utf8Size_pos
      obtain ⟨m, rfl⟩ : ∃ m, n = m + 1 := ⟨n - 1, by omega⟩
      rw [truncate, if_pos (by omega), ih (by omega)]
      rfl

/-- A reason of at most as many bytes as are kept is kept whole. -/
theorem truncate_reason {s : String} (hshort : s.utf8ByteSize ≤ reasonLimit) :
    truncate reasonLimit s.toList = some s.toList :=
  truncate_of_short (by rwa [String.ofList_toList])

theorem truncate_reason_isSome {s : String} (hshort : s.utf8ByteSize ≤ reasonLimit) :
    (truncate reasonLimit s.toList).isSome := by
  rw [truncate_reason hshort]
  rfl

theorem knownReasons_kept : ∀ s ∈ knownReasons,
    truncate reasonLimit s.toList = some s.toList := by
  have hshort : ∀ s ∈ knownReasons, s.utf8ByteSize ≤ reasonLimit := by decide
  exact fun s hs => truncate_reason (hshort s hs)

theorem knownReasons_cut : ∀ s ∈ knownReasons, (truncate reasonLimit s.toList).isSome := by
  intro s hs
  rw [knownReasons_kept s hs]
  rfl

theorem internReason_isOk (s : String) :
    (internReason s).isOk = true ↔ (truncate reasonLimit s.toList).isSome := by
  unfold internReason
  split
  next hknown => simp [knownReasons_cut s hknown]
  next => cases truncate reasonLimit s.toList <;> simp

theorem keepable_none : Keepable none := by
  intro reason hreason
  obtain rfl : "no reason recorded" = reason := by simpa [absentReason, storedReason] using hreason
  exact knownReasons_cut _ (by decide)

/-- An envelope is read exactly if its reason can be kept. -/
theorem evInner_isOk (inner : Option JVal) (source : String) (stamp : ClockStamp) :
    (evInner inner source stamp).isOk = true ↔ Keepable inner := by
  unfold evInner Keepable absentReason
  cases hnum : inner.bind JVal.num? with
  | some n => simp
  | none =>
      cases hv : inner.bind (·.numAt "v") with
      | some x =>
          cases hp : present? (inner.bind (·.strAt "p")) x with
          | some value => simp [hp]
          | none =>
              have hknown := (internReason_isOk "present value with unknown provenance kind").mpr
                (knownReasons_cut _ (by decide))
              simp only [hp]
              rw [isOk_bind_of (P := True) (fun _ => by simp), hknown]
              simp
      | none =>
          dsimp only
          rw [isOk_bind_of (P := True) (fun _ => by simp), internReason_isOk]
          simp

/-! ## The envelopes of a record -/

/-- The envelope under a key that may hold a truth value instead. -/
def boolEnvelope (v : JVal) (key : String) : List (Option JVal) :=
  match v.get key with
  | some o => if (o.asBool.or (o.boolAt "v")).isSome then [] else [some o]
  | none => []

/-- The envelopes under keys. -/
def keyed (keys : List String) (v : JVal) : List (Option JVal) := keys.map v.get

def items (v : JVal) (key : String) : List JVal := (v.arrAt key).getD []

def batteryEnvelopes (v : JVal) : List (Option JVal) :=
  keyed ["remaining_mwh", "discharge_w", "charge_w", "charge_pct"] v ++ boolEnvelope v "ac" ++
    keyed ["rate_mw", "health", "temperature_raw"] v

def cpuEnvelopes (v : JVal) : List (Option JVal) :=
  let inTotals key := (v.get "totals").bind (·.get key)
  let inEnergy key := (v.get "energy").bind (·.get key)
  (totalKeys (v.get "totals")).map inTotals ++
    (items v "cores").flatMap (keyed ["utility", "performance", "freq_mhz", "parking"]) ++
    ["utility", "c3_pct", "idle_breaks"].map inTotals ++
    ["pkg_derived_w", "pkg_power_w"].map inEnergy ++ ["ctx_switches"].map inTotals

def adapterEnvelopes (a : JVal) : List (Option JVal) :=
  (items a "top_pids").flatMap (keyed ["util_pct"]) ++
    keyed ["total_util_pct", "mem_dedicated_mb", "mem_shared_mb", "util_3d", "util_compute",
      "util_decode", "util_codec", "util_copy", "util_other", "engines_active",
      "engines_seen"] a

def netEnvelopes (v : JVal) : List (Option JVal) :=
  (items v "adapters").flatMap (keyed ["tx_mbps", "rx_mbps", "in_octets", "out_octets"]) ++
    (items v "throughput").flatMap (keyed ["rx_bps", "tx_bps"]) ++
    (items v "wifi").flatMap (keyed ["signal_pct"]) ++ keyed ["total_rx_bps", "total_tx_bps"] v

def usbEnvelopes (v : JVal) : List (Option JVal) :=
  (items v "groups").flatMap (keyed ["count"])

/-- Settings with a side for mains and a side for battery. -/
def policyKeys : List String :=
  ["cpu_min_pct", "cpu_max_pct", "epp", "brightness_pct", "display_timeout_s",
    "sleep_timeout_s", "hibernate_timeout_s", "low_batt_pct", "crit_batt_pct"]

def policyEnvelopes (v : JVal) : List (Option JVal) :=
  (policyKeys.flatMap fun key =>
    ["ac", "dc"].map fun which => (v.get key).bind (·.get which)) ++
      keyed ["timer_resolution_ms"] v

/-- The envelopes that the loader of a collector reads. -/
def collectorEnvelopes (collector : String) (v : JVal) : List (Option JVal) :=
  if collector = "battery" then batteryEnvelopes v
  else if collector = "cpu" then cpuEnvelopes v
  else if collector = "gpu" then (items v "adapters").flatMap adapterEnvelopes
  else if collector = "proc" then (items v "top").flatMap (keyed ["cpu_pct"])
  else if collector = "display" then (items v "displays").flatMap (keyed ["brightness_pct"])
  else if collector = "net" then netEnvelopes v
  else if collector = "storage" then
    keyed ["disk_time_pct", "read_bps", "write_bps"] (totalDisk v)
  else if collector = "usb" then usbEnvelopes v
  else if collector = "self" then
    keyed ["cpu_pct", "ws_mb", "priv_mb", "io_read_b", "io_write_b", "threads",
      "ctx_switches_s"] v
  else if collector = "os_power" then policyEnvelopes v
  else []

/-- Every reason that the loader reads from the record can be kept. -/
def ReasonsKeepable (v : JVal) : Prop :=
  ∀ collector ∈ v.strAt "collector", ∀ inner ∈ collectorEnvelopes collector v, Keepable inner

instance : DecidablePred ReasonsKeepable := fun v =>
  inferInstanceAs (Decidable (∀ collector ∈ v.strAt "collector", _))

section Loaders

variable (v : JVal) (stamp : ClockStamp) (s : SessionData)

@[simp] theorem ev_isOk (obj : JVal) (key source : String) :
    (ev obj key source stamp).isOk = true ↔ Keepable (obj.get key) :=
  evInner_isOk _ _ _

theorem plainNum_isOk (obj : JVal) (key source : String) :
    (plainNum obj key source stamp).isOk = true ↔ Keepable (obj.get key) := by
  unfold plainNum
  cases hget : obj.get key with
  | none => simp [keepable_none]
  | some w =>
      cases hnum : w.num? with
      | some n => simp [hnum, Keepable, absentReason]
      | none => simp only [hnum, evInner_isOk]

theorem evBool_isOk (obj : JVal) (key source : String) :
    (evBool obj key source stamp).isOk = true ↔ ∀ inner ∈ boolEnvelope obj key, Keepable inner := by
  unfold evBool boolEnvelope
  cases hget : obj.get key with
  | none => simp
  | some o =>
      cases hbool : o.asBool.or (o.boolAt "v") with
      | some b => simp [hbool]
      | none => simp [hbool, evInner_isOk]

theorem loadCpuSub_isOk (parent : Option JVal) (key : String) :
    (loadCpuSub parent key stamp).isOk = true ↔ Keepable (parent.bind (·.get key)) := by
  cases parent with
  | none => simp [loadCpuSub, keepable_none]
  | some o => simp [loadCpuSub]

theorem policySide_isOk (key which : String) :
    (policySide v key which stamp).isOk = true ↔
      Keepable ((v.get key).bind (·.get which)) := by
  unfold policySide
  cases (v.get key).bind (·.get which) with
  | none => simp [keepable_none]
  | some o => simp [evInner_isOk]

theorem forall_keyed (keys : List String) (obj : JVal) :
    (∀ inner ∈ keyed keys obj, Keepable inner) ↔ ∀ key ∈ keys, Keepable (obj.get key) :=
  List.forall_mem_map

theorem loadBattery_isOk :
    (loadBattery v stamp s).isOk = true ↔ ∀ inner ∈ batteryEnvelopes v, Keepable inner := by
  simp only [loadBattery, batteryEnvelopes, isOk_bind, isOk_map, exists_eq_ok, exists_and_right,
    bind_pure_comp, evBool_isOk, ev_isOk, List.forall_mem_append, forall_keyed]
  simp [and_assoc]

theorem loadTotal_isOk (totals : Option JVal) (key : String) :
    (loadTotal totals stamp key).isOk = true ↔ Keepable (totals.bind (·.get key)) := by
  rw [loadTotal, bind_pure_comp, isOk_map, evInner_isOk]

theorem loadCore_isOk (c : JVal) : (loadCore stamp c).isOk = true ↔
    ∀ inner ∈ keyed ["utility", "performance", "freq_mhz", "parking"] c, Keepable inner := by
  simp [loadCore, forall_keyed, isOk_bind, exists_eq_ok]

theorem loadCpu_isOk :
    (loadCpu v stamp s).isOk = true ↔ ∀ inner ∈ cpuEnvelopes v, Keepable inner := by
  simp only [loadCpu, cpuEnvelopes, isOk_bind, isOk_map, exists_eq_ok, exists_and_right,
    bind_pure_comp, isOk_mapM, loadTotal_isOk, loadCore_isOk, loadCpuSub_isOk,
    List.forall_mem_append, List.forall_mem_map, List.forall_mem_flatMap, items]
  simp [and_assoc]

theorem loadTopPid_isOk (p : JVal) : (loadTopPid stamp p).isOk = true ↔
    ∀ inner ∈ keyed ["util_pct"] p, Keepable inner := by
  simp [loadTopPid, forall_keyed]

theorem loadAdapter_isOk (a : JVal) : (loadAdapter stamp a).isOk = true ↔
    ∀ inner ∈ adapterEnvelopes a, Keepable inner := by
  simp only [loadAdapter, adapterEnvelopes, isOk_bind, isOk_map, exists_eq_ok, exists_and_right,
    bind_pure_comp, isOk_mapM, loadTopPid_isOk, ev_isOk, List.forall_mem_append, forall_keyed,
    List.forall_mem_flatMap, items]
  simp

theorem loadGpu_isOk : (loadGpu v stamp s).isOk = true ↔
    ∀ inner ∈ (items v "adapters").flatMap adapterEnvelopes, Keepable inner := by
  rw [loadGpu, bind_pure_comp, isOk_map, isOk_mapM, List.forall_mem_flatMap]
  simp only [loadAdapter_isOk, items]

theorem loadProcs_isOk : (loadProcs v stamp s).isOk = true ↔
    ∀ inner ∈ (items v "top").flatMap (keyed ["cpu_pct"]), Keepable inner := by
  have hentry : ∀ p, (loadProc stamp p).isOk = true ↔ Keepable (p.get "cpu_pct") := by
    intro p
    rw [loadProc, bind_pure_comp, isOk_map, ev_isOk]
  rw [loadProcs, bind_pure_comp, isOk_map, isOk_mapM, List.forall_mem_flatMap]
  simp [hentry, forall_keyed, items]

theorem loadDisplay_isOk : (loadDisplay v stamp s).isOk = true ↔
    ∀ inner ∈ (items v "displays").flatMap (keyed ["brightness_pct"]), Keepable inner := by
  have hentry : ∀ d, (loadDisplayEntry stamp d).isOk = true ↔
    Keepable (d.get "brightness_pct") := by
    intro d
    rw [loadDisplayEntry, bind_pure_comp, isOk_map, ev_isOk]
  rw [loadDisplay, bind_pure_comp, isOk_map, isOk_mapM, List.forall_mem_flatMap]
  simp [hentry, forall_keyed, items]

theorem loadNet_isOk :
    (loadNet v stamp s).isOk = true ↔ ∀ inner ∈ netEnvelopes v, Keepable inner := by
  have hadapter : ∀ a, (loadNetAdapter stamp a).isOk = true ↔
      ∀ inner ∈ keyed ["tx_mbps", "rx_mbps", "in_octets", "out_octets"] a, Keepable inner := by
    intro a
    simp [loadNetAdapter, forall_keyed, isOk_bind, exists_eq_ok, plainNum_isOk]
  have hthroughput : ∀ p, (loadThroughput stamp p).isOk = true ↔
      ∀ inner ∈ keyed ["rx_bps", "tx_bps"] p, Keepable inner := by
    intro p
    simp [loadThroughput, forall_keyed, isOk_bind, exists_eq_ok]
  have hwifi : ∀ w, (loadWifi stamp w).isOk = true ↔
      ∀ inner ∈ keyed ["signal_pct"] w, Keepable inner := by
    intro w
    simp [loadWifi, forall_keyed]
  simp only [loadNet, netEnvelopes, isOk_bind, isOk_map, exists_eq_ok, exists_and_right,
    bind_pure_comp, isOk_mapM, hadapter, hthroughput, hwifi, ev_isOk, List.forall_mem_append,
    List.forall_mem_flatMap, items, and_assoc]
  simp [forall_keyed]

theorem loadStorage_isOk : (loadStorage v stamp s).isOk = true ↔
    ∀ inner ∈ keyed ["disk_time_pct", "read_bps", "write_bps"] (totalDisk v), Keepable inner := by
  simp [loadStorage, forall_keyed, isOk_bind, exists_eq_ok]

theorem loadUsb_isOk :
    (loadUsb v stamp s).isOk = true ↔ ∀ inner ∈ usbEnvelopes v, Keepable inner := by
  have hclass : ∀ g, (loadUsbClass stamp g).isOk = true ↔ Keepable (g.get "count") := by
    intro g
    rw [loadUsbClass]
    cases hcount : g.get "count" with
    | some o =>
        simp only [bind_pure_comp, isOk_map, ev_isOk, hcount]
    | none => cases g.arrAt "devices" <;> simp [keepable_none]
  rw [loadUsb, bind_pure_comp, isOk_map, isOk_mapM, usbEnvelopes, List.forall_mem_flatMap]
  simp [hclass, forall_keyed, items]

theorem loadSelfmon_isOk : (loadSelfmon v stamp s).isOk = true ↔
    ∀ inner ∈ keyed ["cpu_pct", "ws_mb", "priv_mb", "io_read_b", "io_write_b", "threads",
      "ctx_switches_s"] v, Keepable inner := by
  simp [loadSelfmon, forall_keyed, isOk_bind, exists_eq_ok]

theorem loadPolicy_isOk :
    (loadPolicy v stamp s).isOk = true ↔ ∀ inner ∈ policyEnvelopes v, Keepable inner := by
  have hpair : ∀ key, (policyPair v key stamp).isOk = true ↔
      Keepable ((v.get key).bind (·.get "ac")) ∧ Keepable ((v.get key).bind (·.get "dc")) := by
    intro key
    simp only [policyPair, isOk_bind, isOk_map, exists_eq_ok, exists_and_right, bind_pure_comp,
      policySide_isOk]
  simp only [loadPolicy, policyEnvelopes, policyKeys, isOk_bind, isOk_map, exists_eq_ok,
    exists_and_right, bind_pure_comp, hpair, ev_isOk, List.forall_mem_append, forall_keyed,
    List.forall_mem_flatMap]
  simp [and_assoc]

theorem collectorLoader_isOk {collector : String}
    {load : JVal → ClockStamp → SessionData → Except Fault SessionData}
    (hload : collectorLoader collector = some load) : (load v stamp s).isOk = true ↔
      ∀ inner ∈ collectorEnvelopes collector v, Keepable inner := by
  cases hload using collectorLoader_cases with
  | battery => exact loadBattery_isOk v stamp s
  | cpu => exact loadCpu_isOk v stamp s
  | gpu => exact loadGpu_isOk v stamp s
  | procs => exact loadProcs_isOk v stamp s
  | display => exact loadDisplay_isOk v stamp s
  | net => exact loadNet_isOk v stamp s
  | storage => exact loadStorage_isOk v stamp s
  | usb => exact loadUsb_isOk v stamp s
  | selfmon => exact loadSelfmon_isOk v stamp s
  | policy => exact loadPolicy_isOk v stamp s

theorem collectorEnvelopes_of_none {collector : String}
    (hload : collectorLoader collector = none) : collectorEnvelopes collector v = [] := by
  simp only [collectorLoader, ite_eq_iff, reduceCtorEq, and_false, false_or] at hload
  simp only [collectorEnvelopes, hload, if_false]

/-- A record is loaded exactly if every reason in it can be kept. -/
theorem loadRecord_isOk : (loadRecord v s).isOk = true ↔ ReasonsKeepable v := by
  unfold loadRecord ReasonsKeepable
  cases hload : (v.strAt "collector").bind collectorLoader with
  | some load =>
      obtain ⟨collector, hcollector, hload⟩ := Option.bind_eq_some_iff.mp hload
      simp only [collectorLoader_isOk v _ _ hload, hcollector, Option.mem_some_iff, forall_eq']
  | none =>
      have hempty : ∀ collector ∈ v.strAt "collector", collectorEnvelopes collector v = [] := by
        intro collector hcollector
        rw [Option.mem_def.mp hcollector, Option.bind_some] at hload
        exact collectorEnvelopes_of_none v hload
      have hkeepable : ∀ collector ∈ v.strAt "collector",
          ∀ inner ∈ collectorEnvelopes collector v, Keepable inner := by
        intro collector hcollector inner hinner
        rw [hempty collector hcollector] at hinner
        cases hinner
      have hok : ∀ s : SessionData, (if v.strAt "type" = some "event" then
          Except.ok { s with events := s.events ++ [loadEvent v (stampOf v)] }
        else if v.strAt "type" = some "session_footer" then
          .ok { s with footer := v.get "summary" }
        else .ok s : Except Fault SessionData).isOk = true := by
        intro s
        split
        · rfl
        · split <;> rfl
      simp only [hok, true_iff]
      exact hkeepable

end Loaders

/-! ## Whole sessions -/

/-- A line that the loader gets over. -/
def Loadable (line : List Char) : Prop :=
  Lines.trim line ≠ [] →
    ∃ v, parse (String.ofList (Lines.trim line)) = .ok v ∧ ReasonsKeepable v

theorem loadLines_isOk (number : Nat) (ls : List (List Char)) (s : SessionData) :
    (loadLines number ls s).isOk = true ↔ ∀ line ∈ ls, Loadable line := by
  induction ls generalizing number s with
  | nil => simp [loadLines]
  | cons line ls ih =>
      rw [loadLines, List.forall_mem_cons]
      by_cases hblank : Lines.trim line = []
      · rw [if_pos hblank, ih]
        simp [Loadable, hblank]
      · rw [if_neg hblank]
        unfold Loadable
        cases hparse : parse (String.ofList (Lines.trim line)) with
        | error e => simp [hblank]
        | ok v =>
            have hrecord := loadRecord_isOk v s
            cases hload : loadRecord v s with
            | error fault =>
                rw [hload] at hrecord
                simp only [isOk_error, Bool.false_eq_true, false_iff] at hrecord
                simp [hblank, hrecord, hload]
            | ok s' =>
                rw [hload] at hrecord
                simp only [isOk_ok, true_iff] at hrecord
                simp [hblank, hrecord, hload, ih, Loadable]

theorem loadSession_isOk (label text : String) :
    (loadSession label text).isOk = true ↔ ∀ line ∈ Lines.lines text.toList, Loadable line :=
  loadLines_isOk _ _ _

end PowerForensics.Session
