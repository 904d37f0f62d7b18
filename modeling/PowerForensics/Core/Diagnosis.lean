import Mathlib.Data.Int.ConditionallyCompleteOrder
import Mathlib.Data.Prod.Lex
import PowerForensics.Core.Settling
import PowerForensics.Core.StepDetection
import PowerForensics.System.Lookup
import PowerForensics.System.Tables

/-! # What goes with a step

A diagnosis takes the largest step of the discharge and lists what else changed there: from the
window before it to the window behind, at adapters, processor and display, and among the listed
processes. Only one of these changes is in watts, a derivation that counts as an estimate, so the
whole step stays unattributed. A process counts as started only by its start time, and as stopped
only after it was missing from the lists for more than three ticks.
-/

namespace PowerForensics.Analysis

open Session Stats Binary64 Merging Tables FirstSeen

/-! ## Model -/

structure Evidence where
  label : String
  detail : String
  /-- The change, if the evidence is in watts. -/
  deltaW : Option Binary64
  confidence : Confidence

structure Diagnosis where
  dischargeN : Nat
  medianW : Option Binary64 := none
  baselineAbsW : Option Binary64 := none
  baselineRel : Option Binary64 := none
  step : Option StepChange := none
  evidence : List Evidence := []
  unattributedW : Option Binary64 := none
  note : String := ""

/-! ### Processes over the ticks -/

structure ProcStart where
  pid : UInt32
  name : String
  firstSeenT : Binary64

structure ProcStop where
  pid : UInt32
  name : String
  lastSeenT : Binary64
  exitEstT : Binary64
  missedTicks : Nat

/-- The name of a process and the ticks where it was listed first and last. -/
structure Span where
  name : String
  first : Nat
  last : Nat

/-- A process id and the time when the process started, where it is known. -/
abbrev Identity := UInt32 × Option UInt64

def identity (e : ProcEntry) : Identity := (e.pid, e.startUnixMs)

/-- Identities are sorted by the id, and an unknown start comes first. -/
def identityKey (id : Identity) : Nat ×ₗ Nat :=
  toLex (id.1.toNat, id.2.elim 0 fun ms => ms.toNat + 1)

/-- One more listing of an identity. -/
def Span.list (known : Option Span) (listing : Nat × ProcEntry) : Span :=
  known.elim ⟨listing.2.name, listing.1, listing.1⟩ fun sp => { sp with last := listing.1 }

/-- What the snapshots list, each entry with its tick. -/
def tickListings (snaps : List ProcPoint) : List (Nat × ProcEntry) :=
  snaps.zipIdx.flatMap fun p => p.1.top.map fun e => (p.2, e)

/-- The identities in their order, with their spans. -/
def spans (snaps : List ProcPoint) : List (Identity × Span) :=
  stableSort (fun e => identityKey e.1)
    (gather (fun listing => identity listing.2) Span.list (tickListings snaps))

/-- The estimated exit of a process that was missing for some ticks. -/
def exitHint (lastSeenT interval : Binary64) (missedTicks : Nat) : Option Binary64 :=
  if 3 < missedTicks ∧ 0.0 < interval ∧ lastSeenT.isFinite = true then some (lastSeenT + interval)
  else none

def startOf (ts : List Binary64) (e : Identity × Span) : Option ProcStart :=
  if 0 < e.2.first then some ⟨e.1.1, e.2.name, at_ ts e.2.first⟩ else none

def stopOf (ts : List Binary64) (dt : Binary64) (e : Identity × Span) : Option ProcStop :=
  let missed := ts.length - (e.2.last + 1)
  (exitHint (at_ ts e.2.last) dt missed).map fun exit =>
    ⟨e.1.1, e.2.name, at_ ts e.2.last, exit, missed⟩

def lifecycleAcrossTicks (snaps : List ProcPoint) : List ProcStart × List ProcStop :=
  let ts := snaps.map ProcPoint.t
  let dt := medianInterval ts
  ((spans snaps).filterMap (startOf ts), (spans snaps).filterMap (stopOf ts dt))

/-! ### Around the step -/

/-- Begin of the window before a step, the step, and end of the window behind. -/
structure StepTimes where
  before : Binary64
  step : Binary64
  after : Binary64

def timeMedian (series : List (Binary64 × Binary64)) (t0 t1 : Binary64) : Option Binary64 :=
  Stats.median ((series.filter fun p => t0 ≤ p.1 ∧ p.1 < t1).map Prod.snd)

/-- The medians of a series before a step and behind it. -/
def StepTimes.shift (w : StepTimes) (series : List (Binary64 × Binary64)) :
    Option (Binary64 × Binary64) := do
  let before ← timeMedian series w.before w.step
  let after ← timeMedian series w.step w.after
  return (before, after)

def knownSeries {α : Type} (points : List α) (time : α → Binary64)
    (reading : α → Telemetry Binary64) : List (Binary64 × Binary64) :=
  points.filterMap fun p => (reading p).val.map fun v => (time p, v)

/-- A source of watts for graphics; all are unavailable. -/
structure PowerAdapter where
  name : String
  limitations : String

def availableAdapters : List PowerAdapter :=
  [⟨"NVML (NVIDIA)", "NVML client not linked on this build; no NVIDIA power readings"⟩,
    ⟨"ADL (AMD)", "ADL client not linked on this build; no AMD dGPU power readings"⟩,
    ⟨"Intel (IGPU/dGPU)", "no generic Intel GPU power API on Windows; " ++
      "iGPU power not separately measurable"⟩]

def gpuSensorEvidence : Evidence where
  label := "GPU power sensor"
  detail := "unavailable (" ++
    "; ".intercalate (availableAdapters.map fun a => a.name ++ ": " ++ a.limitations) ++ ")"
  deltaW := none
  confidence := .low

/-- A number with some places behind the point. -/
def fixedTo (p : Nat) (x : Binary64) : String := .ofList (x.fixed p)

def stepAdapters (s : SessionData) : List String :=
  firstSeen id (s.gpu.flatMap fun g => g.adapters.map GpuAdapterPoint.name)

def adapterSeries (s : SessionData) (name : String) : List (Binary64 × Binary64) :=
  s.gpu.filterMap fun g =>
    (g.adapters.find? fun a => a.name = name).bind fun a => a.totalUtil.val.map fun u => (g.t, u)

/-- Evidence from the medians of a series, if they moved enough. -/
def StepTimes.shiftEvidence (w : StepTimes) (series : List (Binary64 × Binary64))
    (moved : Binary64 → Binary64 → Bool) (evidence : Binary64 → Binary64 → Evidence) :
    Option Evidence :=
  ((w.shift series).filter fun p => moved p.1 p.2).map fun p => evidence p.1 p.2

def gpuEvidence (s : SessionData) (w : StepTimes) (name : String) : Option Evidence :=
  w.shiftEvidence (adapterSeries s name) (fun before after => 0.5 ≤ (after - before).abs)
    fun before after =>
      { label := s!"GPU activity ({name})"
        detail := s!"engine sum {fixedTo 1 before}% -> {fixedTo 1 after}% within one window"
        deltaW := none
        confidence := if (0.5 : Binary64) < after then .high else .medium }

def cpuEvidence (s : SessionData) (w : StepTimes) : Option Evidence :=
  w.shiftEvidence (knownSeries s.cpu CpuPoint.t CpuPoint.utility)
    (fun before after => 3.0 ≤ (after - before).abs) fun before after =>
      { label := "CPU utilization shift"
        detail := s!"utility {fixedTo 1 before}% -> {fixedTo 1 after}%"
        deltaW := none
        confidence := .medium }

def c3Evidence (s : SessionData) (w : StepTimes) : Option Evidence :=
  w.shiftEvidence (knownSeries s.cpu CpuPoint.t CpuPoint.c3Pct)
    (fun before after => 10.0 ≤ before - after) fun before after =>
      { label := "Processor C3 residency decreased"
        detail := s!"processor % C3 Time {fixedTo 0 before}% -> {fixedTo 0 after}%; " ++
          "may correlate with higher idle power"
        deltaW := none
        confidence := .high }

/-- The only evidence in watts. -/
def packageEvidence (s : SessionData) (w : StepTimes) : Option Evidence :=
  w.shiftEvidence (knownSeries s.cpu CpuPoint.t CpuPoint.pkgDerivedW)
    (fun before after => 0.5 ≤ (after - before).abs) fun before after =>
      { label := "CPU package power (estimated)"
        detail := s!"Energy-Meter derivation {fixedTo 1 before} W -> {fixedTo 1 after} W; " ++
          "model, not sensor"
        deltaW := some (after - before)
        confidence := .low }

def brightnessEvidence (s : SessionData) (w : StepTimes) : Option Evidence :=
  w.shiftEvidence (knownSeries s.display DisplayPoint.t DisplayPoint.brightness)
    (fun before after => 5.0 ≤ (after - before).abs) fun before after =>
      { label := "Display brightness change"
        detail := s!"sensor {fixedTo 0 before}% -> {fixedTo 0 after}% " ++
          "(no display power sensor exists)"
        deltaW := none
        confidence := .medium }

/-! ### Processes around the step -/

structure Seen where
  ppid : UInt32
  name : String
  cpu : Option Binary64
  startUnixMs : Option UInt64

def Seen.of (e : ProcEntry) : Seen := ⟨e.ppid, e.name, e.cpu.val, e.startUnixMs⟩

/-- What is listed between two times. -/
def listedIn (s : SessionData) (t0 t1 : Binary64) : List ProcEntry :=
  (s.procs.filter fun p => t0 ≤ p.t ∧ p.t < t1).flatMap ProcPoint.top

/-- The process ids listed between two times, as they were listed first. -/
def procsIn (s : SessionData) (t0 t1 : Binary64) : List (UInt32 × Seen) :=
  gather ProcEntry.pid (fun known e => known.getD (.of e)) (listedIn s t0 t1)

/-- The process ids behind a step that were not listed before it. -/
def arrivals (s : SessionData) (w : StepTimes) : List (UInt32 × Seen) :=
  stableSort (fun e => e.1.toNat) <| (procsIn s w.step w.after).filter fun e =>
    ((procsIn s w.before w.step).lookup e.1).isNone

def wallAt (s : SessionData) (t : Binary64) : Binary64 :=
  .ofNat s.wallBaseMs.toNat + t * 1000.0

/-- The process was started behind the step. -/
def Seen.startedInWindow (e : Seen) (wall : Binary64) : Bool :=
  e.startUnixMs.any fun ms => wall ≤ Binary64.ofNat ms.toNat

def arrivalEvidence (wall : Binary64) (e : UInt32 × Seen) : Evidence :=
  let started := e.2.startedInWindow wall
  let cpuTxt := e.2.cpu.elim "no CPU delta yet (warming up)" fun c =>
    s!"using {fixedTo 1 c}% CPU in the after-window"
  let basis :=
    if started then "start time falls in the after-window"
    else if e.2.startUnixMs.isSome then
      "already running before the step; entering top-15 is not a start"
    else "process start time unavailable; presence in top-15 is not a start"
  { label :=
      if started then s!"Process started {e.2.name} (pid {e.1})"
      else if e.2.startUnixMs.isSome then s!"Process {e.2.name} (pid {e.1}) became active"
      else s!"Process {e.2.name} (pid {e.1}) entered top-15"
    detail := s!"{cpuTxt} (parent pid {e.2.ppid}; {basis})"
    deltaW := none
    confidence := if started then .medium else .low }

def stopEvidence (st : ProcStop) : Evidence where
  label := s!"Process {st.name} (pid {st.pid}) stopped (estimated)"
  detail := s!"last seen at t={fixedTo 0 st.lastSeenT}s, absent {st.missedTicks} ticks after; " ++
    s!"exit ~{fixedTo 0 st.exitEstT}s estimated (top-15 absence only; true exit needs ETW)"
  deltaW := none
  confidence := .low

/-! ### The diagnosis -/

/-- The known discharge with its times. -/
def dischargeSeries (s : SessionData) : List (Binary64 × Binary64) :=
  knownSeries s.battery BatteryPoint.t BatteryPoint.discharge

/-- A tenth of the samples, between five and sixty. -/
def diagnosisWindow (n : Nat) : Nat := Nat.min (Nat.max (n / 10) 5) 60

def stepTimes (s : SessionData) (st : StepChange) : StepTimes :=
  let ts := (dischargeSeries s).map Prod.fst
  let tStep := at_ ts st.index
  let width := .ofNat (diagnosisWindow ts.length) * medianInterval ts
  ⟨tStep - width, tStep, tStep + width⟩

/-- All evidence for a step in the order in which it is collected. -/
def collected (s : SessionData) (w : StepTimes) : List Evidence :=
  gpuSensorEvidence :: ((stepAdapters s).filterMap (gpuEvidence s w) ++
    ((cpuEvidence s w).toList ++ ((c3Evidence s w).toList ++ ((packageEvidence s w).toList ++
      ((brightnessEvidence s w).toList ++
        (((arrivals s w).take 5).map (arrivalEvidence (wallAt s w.step)) ++
          ((lifecycleAcrossTicks s.procs).2.take 5).map stopEvidence))))))

/-- Evidence in watts comes first, the most of it at the front. -/
def Evidence.rank (e : Evidence) : WithTop Int :=
  e.deltaW.elim ⊤ fun x => ((-x.abs.totalRank : Int) : WithTop Int)

def diagnoseSession (s : SessionData) (baselineMedian : Option Binary64) : Diagnosis :=
  let vals := (dischargeSeries s).map Prod.snd
  if vals = [] then
    { dischargeN := vals.length
      note := "no battery discharge samples (on AC or charging throughout)" }
  else
    match PowerSummary.of vals with
    | none => { dischargeN := vals.length, note := "empty discharge series" }
    | some summary =>
        let baseline := baselineMedian.filter fun b => 0.0 < b
        let d : Diagnosis :=
          { dischargeN := vals.length
            medianW := some summary.median
            baselineAbsW := baseline.map fun b => summary.median - b
            baselineRel := baseline.map fun b => (summary.median - b) / b }
        match detectStep vals (diagnosisWindow vals.length) 1.0 with
        | none =>
            { d with
              evidence := [gpuSensorEvidence]
              note := "no step change >= 1.0 W found; discharge looks stable" }
        | some st =>
            { d with
              step := some st
              evidence := stableSort Evidence.rank (collected s (stepTimes s st))
              unattributedW := some st.deltaW }

/-! ## Lives of processes -/

section Lives

variable {snaps : List ProcPoint} {p : ProcPoint} {id : Identity} {sp : Span}

def Lists (p : ProcPoint) (id : Identity) : Prop := ∃ e ∈ p.top, identity e = id

/-- The ticks where an identity was listed first and last, and its name when it was first. -/
structure Lived (snaps : List ProcPoint) (id : Identity) (sp : Span) : Prop where
  first : ∃ p e, snaps[sp.first]? = some p ∧ p.top.find? (fun e => identity e = id) = some e ∧
    e.name = sp.name
  notBefore : ∀ i p, i < sp.first → snaps[i]? = some p → ¬Lists p id
  last : ∃ p, snaps[sp.last]? = some p ∧ Lists p id
  notBehind : ∀ i p, sp.last < i → snaps[i]? = some p → ¬Lists p id

theorem lists_of_find {e : ProcEntry} (h : p.top.find? (fun e => identity e = id) = some e) :
    Lists p id :=
  ⟨e, List.mem_of_find?_eq_some h, by simpa using List.find?_some h⟩

theorem Lived.first_lists (h : Lived snaps id sp) :
    ∃ p, snaps[sp.first]? = some p ∧ Lists p id := by
  obtain ⟨p, e, hp, he, -⟩ := h.first
  exact ⟨p, hp, lists_of_find he⟩

/-- An identity has one life. -/
theorem Lived.eq {sp' : Span} (h : Lived snaps id sp) (h' : Lived snaps id sp') : sp = sp' := by
  have hfirst : sp.first = sp'.first := by
    obtain ⟨p, hp, hlists⟩ := h.first_lists
    obtain ⟨p', hp', hlists'⟩ := h'.first_lists
    refine le_antisymm (Nat.not_lt.mp fun hlt => ?_) (Nat.not_lt.mp fun hlt => ?_)
    · exact h.notBefore _ p' hlt hp' hlists'
    · exact h'.notBefore _ p hlt hp hlists
  have hlast : sp.last = sp'.last := by
    obtain ⟨p, hp, hlists⟩ := h.last
    obtain ⟨p', hp', hlists'⟩ := h'.last
    refine le_antisymm (Nat.not_lt.mp fun hlt => ?_) (Nat.not_lt.mp fun hlt => ?_)
    · exact h'.notBehind _ p hlt hp hlists
    · exact h.notBehind _ p' hlt hp' hlists'
  have hname : sp.name = sp'.name := by
    obtain ⟨p, e, hp, he, hname⟩ := h.first
    obtain ⟨p', e', hp', he', hname'⟩ := h'.first
    rw [← hfirst, hp] at hp'
    obtain rfl := Option.some.inj hp'
    obtain rfl := Option.some.inj (he.symm.trans he')
    exact hname.symm.trans hname'
  cases sp
  cases sp'
  simp_all

theorem getElem?_concat_of_lt {i : Nat} {q : ProcPoint} (h : snaps[i]? = some q) :
    (snaps ++ [p])[i]? = some q := by
  rw [List.getElem?_append_left (List.getElem?_eq_some_iff.mp h).1, h]

theorem getElem?_concat_cases {i : Nat} {q : ProcPoint} (h : (snaps ++ [p])[i]? = some q) :
    snaps[i]? = some q ∨ i = snaps.length ∧ q = p := by
  obtain hlt | heq | hgt := lt_trichotomy i snaps.length
  · exact Or.inl ((List.getElem?_append_left hlt).symm.trans h)
  · rw [heq, List.getElem?_concat_length] at h
    exact Or.inr ⟨heq, (Option.some.inj h).symm⟩
  · rw [List.getElem?_eq_none (by rw [List.length_append, List.length_singleton]; omega)] at h
    cases h

/-- A tick that does not list an identity changes nothing of its life. -/
theorem Lived.missed (h : Lived snaps id sp) (hp : ¬Lists p id) : Lived (snaps ++ [p]) id sp := by
  obtain ⟨q, e, hq, he, hname⟩ := h.first
  obtain ⟨r, hr, hlists⟩ := h.last
  have hlt := (List.getElem?_eq_some_iff.mp hq).1
  refine ⟨⟨q, e, getElem?_concat_of_lt hq, he, hname⟩, fun i q' hi hq' => ?_,
    ⟨r, getElem?_concat_of_lt hr, hlists⟩, fun i q' hi hq' => ?_⟩
  · obtain hq' | ⟨rfl, -⟩ := getElem?_concat_cases hq'
    · exact h.notBefore i q' hi hq'
    · omega
  · obtain hq' | ⟨-, rfl⟩ := getElem?_concat_cases hq'
    · exact h.notBehind i q' hi hq'
    · exact hp

/-- A tick that lists an identity prolongs its life. -/
theorem Lived.prolonged (h : Lived snaps id sp) (hp : Lists p id) :
    Lived (snaps ++ [p]) id { sp with last := snaps.length } := by
  obtain ⟨q, e, hq, he, hname⟩ := h.first
  have hlt := (List.getElem?_eq_some_iff.mp hq).1
  refine ⟨⟨q, e, getElem?_concat_of_lt hq, he, hname⟩, fun i q' hi hq' => ?_,
    ⟨p, List.getElem?_concat_length, hp⟩, fun i q' hi hq' => ?_⟩
  · obtain hq' | ⟨rfl, -⟩ := getElem?_concat_cases hq'
    · exact h.notBefore i q' hi hq'
    · exact absurd hi (Nat.not_lt.mpr hlt.le)
  · obtain hq' | ⟨rfl, -⟩ := getElem?_concat_cases hq'
    · exact absurd (List.getElem?_eq_some_iff.mp hq').1 (Nat.not_lt.mpr (Nat.le_of_lt hi))
    · exact absurd hi (lt_irrefl _)

/-- The first tick that lists an identity begins its life. -/
theorem lived_new (hnew : ∀ q ∈ snaps, ¬Lists q id) {e : ProcEntry}
    (he : p.top.find? (fun e => identity e = id) = some e) :
    Lived (snaps ++ [p]) id ⟨e.name, snaps.length, snaps.length⟩ := by
  refine ⟨⟨p, e, List.getElem?_concat_length, he, rfl⟩, fun i q hi hq => ?_,
    ⟨p, List.getElem?_concat_length, lists_of_find he⟩, fun i q hi hq => ?_⟩
  · obtain hq | ⟨rfl, -⟩ := getElem?_concat_cases hq
    · exact hnew q (List.mem_of_getElem? hq)
    · exact absurd hi (lt_irrefl _)
  · obtain hq | ⟨rfl, -⟩ := getElem?_concat_cases hq
    · exact absurd (List.getElem?_eq_some_iff.mp hq).1 (Nat.not_lt.mpr (Nat.le_of_lt hi))
    · exact absurd hi (lt_irrefl _)

/-- The entries of an identity in one tick. -/
theorem foldl_tick (n : Nat) (es : List ProcEntry) (known : Option Span) :
    ((es.filter fun e => identity e = id).map fun e => (n, e)).foldl
        (fun entry x => some (Span.list entry x)) known =
      (es.find? fun e => identity e = id).elim known fun e =>
        some (known.elim ⟨e.name, n, n⟩ fun sp => { sp with last := n }) := by
  induction es generalizing known with
  | nil => rfl
  | cons e es ih =>
      by_cases he : identity e = id
      · rw [List.filter_cons_of_pos (by simpa using he), List.find?_cons_of_pos (by simpa using he),
          List.map_cons, List.foldl_cons, ih]
        cases es.find? fun e => identity e = id <;> cases known <;> rfl
      · rw [List.filter_cons_of_neg (by simpa using he), List.find?_cons_of_neg (by simpa using he),
          ih]

/-- What is known of an identity after some ticks. -/
def lifeOf (snaps : List ProcPoint) (id : Identity) : Option Span :=
  ((tickListings snaps).filter fun listing => identity listing.2 = id).foldl
    (fun entry listing => some (Span.list entry listing)) none

/-- One more tick. -/
theorem lifeOf_concat (snaps : List ProcPoint) (p : ProcPoint) (id : Identity) :
    lifeOf (snaps ++ [p]) id =
      (p.top.find? fun e => identity e = id).elim (lifeOf snaps id) fun e =>
        some ((lifeOf snaps id).elim ⟨e.name, snaps.length, snaps.length⟩
          fun sp => { sp with last := snaps.length }) := by
  have htick : tickListings (snaps ++ [p]) =
      tickListings snaps ++ p.top.map fun e => (snaps.length, e) := by
    simp [tickListings, List.zipIdx_append]
  rw [lifeOf, htick, List.filter_append, List.foldl_append, List.filter_map]
  exact foldl_tick snaps.length p.top (lifeOf snaps id)

/-- What is known of an identity is its life. -/
theorem lifeOf_spec (snaps : List ProcPoint) (id : Identity) :
    (∀ sp, lifeOf snaps id = some sp → Lived snaps id sp) ∧
      (lifeOf snaps id = none → ∀ p ∈ snaps, ¬Lists p id) := by
  induction snaps using List.reverseRecOn with
  | nil => exact ⟨fun sp h => (by cases h), fun _ p hp => absurd hp List.not_mem_nil⟩
  | append_singleton snaps p ih =>
      obtain ⟨hlived, hnone⟩ := ih
      rw [lifeOf_concat]
      cases hfind : p.top.find? fun e => identity e = id with
      | none =>
          have hp : ¬Lists p id := by
            rintro ⟨e, he, hid⟩
            exact List.find?_eq_none.mp hfind e he (by simpa using hid)
          refine ⟨fun sp h => (hlived sp h).missed hp, fun h q hq => ?_⟩
          rcases List.mem_append.mp hq with hq | hq
          · exact hnone h q hq
          · obtain rfl := List.mem_singleton.mp hq
            exact hp
      | some e =>
          refine ⟨fun sp h => ?_, fun h => by cases h⟩
          obtain rfl := Option.some.inj h
          cases hknown : lifeOf snaps id with
          | none => exact lived_new (hnone hknown) hfind
          | some sp => exact (hlived sp hknown).prolonged (lists_of_find hfind)

theorem lifeOf_eq_some : lifeOf snaps id = some sp ↔ Lived snaps id sp := by
  obtain ⟨hlived, hnone⟩ := lifeOf_spec snaps id
  refine ⟨hlived sp, fun h => ?_⟩
  cases hknown : lifeOf snaps id with
  | none =>
      obtain ⟨p, hp, hlists⟩ := h.last
      exact absurd hlists (hnone hknown p (List.mem_of_getElem? hp))
  | some sp' => rw [(hlived sp' hknown).eq h]

theorem mem_spans : (id, sp) ∈ spans snaps ↔ Lived snaps id sp := by
  rw [spans, (stableSort_perm _ _).mem_iff, ← Lookup.lookup_eq_some (nodup_keys_gather _),
    ← lifeOf_eq_some]
  exact iff_of_eq (congrArg (· = some sp) (lookup_gather _ id))

theorem identityKey_injective : Function.Injective identityKey := by
  rintro ⟨pid, start⟩ ⟨pid', start'⟩ h
  obtain ⟨hid, hstart⟩ := Prod.mk.inj (toLex.injective h)
  obtain rfl : pid = pid' := UInt32.toNat_inj.mp hid
  cases start with
  | none =>
      cases start' with
      | none => rfl
      | some ms => exact absurd hstart (Nat.succ_ne_zero _).symm
  | some ms =>
      cases start' with
      | none => exact absurd hstart (Nat.succ_ne_zero _)
      | some ms' => rw [UInt64.toNat_inj.mp (Nat.succ.inj hstart)]

/-- Every identity occurs once, in the order of the identities. -/
theorem ascending_spans (snaps : List ProcPoint) :
    (spans snaps).Pairwise fun a b => identityKey a.1 < identityKey b.1 := by
  have hsorted := ascending_stableSort (fun e : Identity × Span => identityKey e.1)
    (gather (fun listing => identity listing.2) Span.list (tickListings snaps))
  have hnodup : ((spans snaps).map Prod.fst).Nodup :=
    ((stableSort_perm _ _).map Prod.fst).nodup_iff.mpr (nodup_keys_gather _)
  refine (hsorted.and (List.pairwise_map.mp hnodup)).imp fun {a b} h => ?_
  exact lt_of_le_of_ne h.1 fun heq => h.2 (identityKey_injective heq)

/-- An interval between samples is positive. -/
theorem medianInterval_pos (ts : List Binary64) : (0.0 : Binary64) < medianInterval ts := by
  rw [medianInterval]
  split
  · decide +kernel
  · exact interval_pos _

def startRecord (snaps : List ProcPoint) (e : Identity × Span) : ProcStart :=
  ⟨e.1.1, e.2.name, at_ (snaps.map ProcPoint.t) e.2.first⟩

def stopRecord (snaps : List ProcPoint) (e : Identity × Span) : ProcStop :=
  let lastT := at_ (snaps.map ProcPoint.t) e.2.last
  ⟨e.1.1, e.2.name, lastT, lastT + medianInterval (snaps.map ProcPoint.t),
    snaps.length - (e.2.last + 1)⟩

/-- Not seen in any of the last four ticks, and last seen at a finite time. -/
def Gone (snaps : List ProcPoint) (sp : Span) : Prop :=
  sp.last + 4 < snaps.length ∧ (at_ (snaps.map ProcPoint.t) sp.last).isFinite = true

instance (snaps : List ProcPoint) (sp : Span) : Decidable (Gone snaps sp) :=
  inferInstanceAs (Decidable (_ ∧ _))

theorem startOf_eq (e : Identity × Span) : startOf (snaps.map ProcPoint.t) e =
    if 0 < e.2.first then some (startRecord snaps e) else none := rfl

theorem stopOf_eq (e : Identity × Span) :
    stopOf (snaps.map ProcPoint.t) (medianInterval (snaps.map ProcPoint.t)) e =
      if Gone snaps e.2 then some (stopRecord snaps e) else none := by
  have hmissed : 3 < snaps.length - (e.2.last + 1) ↔ e.2.last + 4 < snaps.length := by omega
  simp only [stopOf, exitHint, List.length_map, hmissed, medianInterval_pos, true_and]
  by_cases hgone : Gone snaps e.2
  · rw [if_pos hgone]
    exact congrArg (Option.map _) (if_pos hgone)
  · rw [if_neg hgone]
    exact congrArg (Option.map _) (if_neg hgone)

theorem filterMap_known {α β : Type} (p : α → Prop) [DecidablePred p] (f : α → β) (xs : List α) :
    xs.filterMap (fun x => if p x then some (f x) else none) =
      (xs.filter fun x => p x).map f := by
  induction xs with
  | nil => rfl
  | cons x xs ih => by_cases hx : p x <;> simp [hx, ih]

/-- Each identity that is listed has one life. It was started if this begins behind the first tick,
and stopped if it ends more than three ticks before the last one; both are reported in the order of
the identities. -/
theorem lifecycle_spec (snaps : List ProcPoint) : ∃ lives : List (Identity × Span),
    lives.Pairwise (fun a b => identityKey a.1 < identityKey b.1) ∧
      (∀ id sp, (id, sp) ∈ lives ↔ Lived snaps id sp) ∧
      lifecycleAcrossTicks snaps =
        ((lives.filter fun e => 0 < e.2.first).map (startRecord snaps),
          (lives.filter fun e => Gone snaps e.2).map (stopRecord snaps)) := by
  refine ⟨spans snaps, ascending_spans snaps, fun id sp => mem_spans, ?_⟩
  rw [lifecycleAcrossTicks, ← filterMap_known, ← filterMap_known]
  exact congrArg₂ Prod.mk (List.filterMap_congr fun e _ => startOf_eq e)
    (List.filterMap_congr fun e _ => stopOf_eq e)

end Lives

/-! ## What a diagnosis says -/

section Diagnoses

variable {s : SessionData} {w : StepTimes}

/-- A process id was not listed in the window before a step, and this is its first listing in the
window behind. -/
structure Arrived (s : SessionData) (w : StepTimes) (e : ProcEntry) : Prop where
  notBefore : ∀ e' ∈ listedIn s w.before w.step, e'.pid ≠ e.pid
  first : (listedIn s w.step w.after).find? (fun e' => e'.pid = e.pid) = some e

theorem foldl_first (es : List ProcEntry) (known : Option Seen) :
    es.foldl (fun entry e => some (entry.getD (.of e))) known =
      known.or (es.head?.map Seen.of) := by
  induction es generalizing known with
  | nil => rw [List.foldl_nil, List.head?_nil, Option.map_none, Option.or_none]
  | cons e es ih =>
      rw [List.foldl_cons, ih]
      cases known <;> rfl

/-- A process id has the properties of its first listing. -/
theorem lookup_procsIn (s : SessionData) (t0 t1 : Binary64) (pid : UInt32) :
    (procsIn s t0 t1).lookup pid =
      ((listedIn s t0 t1).find? fun e => e.pid = pid).map Seen.of := by
  rw [procsIn, lookup_gather, foldl_first, Option.none_or, List.head?_filter]

theorem mem_arrivals {pid : UInt32} {seen : Seen} : (pid, seen) ∈ arrivals s w ↔
    ∃ e, Arrived s w e ∧ e.pid = pid ∧ Seen.of e = seen := by
  have hmem : (pid, seen) ∈ procsIn s w.step w.after ↔
      ∃ e, (listedIn s w.step w.after).find? (fun e' => e'.pid = pid) = some e ∧
        Seen.of e = seen := by
    rw [procsIn, ← Lookup.lookup_eq_some (nodup_keys_gather _), ← procsIn, lookup_procsIn,
      Option.map_eq_some_iff]
  have hnew : ((procsIn s w.before w.step).lookup pid).isNone = true ↔
      ∀ e' ∈ listedIn s w.before w.step, e'.pid ≠ pid := by
    rw [lookup_procsIn, Option.isNone_map, Option.isNone_iff_eq_none, List.find?_eq_none]
    simp
  rw [arrivals, (stableSort_perm _ _).mem_iff, List.mem_filter, hmem, hnew]
  constructor
  · rintro ⟨⟨e, he, hseen⟩, hbefore⟩
    have hpid : e.pid = pid := by simpa using List.find?_some he
    exact ⟨e, ⟨hpid ▸ hbefore, hpid ▸ he⟩, hpid, hseen⟩
  · rintro ⟨e, harrived, rfl, hseen⟩
    exact ⟨⟨e, harrived.first, hseen⟩, harrived.notBefore⟩

/-- What a piece of evidence rests on. -/
inductive Backed (s : SessionData) (w : StepTimes) : Evidence → Prop where
  | sensor : Backed s w gpuSensorEvidence
  /-- The medians of a series that is not in watts. -/
  | shift {e : Evidence} {series : List (Binary64 × Binary64)} {before after : Binary64}
      (hseries : (∃ name ∈ stepAdapters s, series = adapterSeries s name) ∨
        series ∈ [knownSeries s.cpu CpuPoint.t CpuPoint.utility,
          knownSeries s.cpu CpuPoint.t CpuPoint.c3Pct,
          knownSeries s.display DisplayPoint.t DisplayPoint.brightness])
      (hshift : w.shift series = some (before, after)) (hwatts : e.deltaW = none) : Backed s w e
  | package {e : Evidence} {before after : Binary64}
      (hshift : w.shift (knownSeries s.cpu CpuPoint.t CpuPoint.pkgDerivedW) = some (before, after))
      (hmoved : (0.5 : Binary64) ≤ (after - before).abs) (hlow : e.confidence = .low)
      (hwatts : e.deltaW = some (after - before)) : Backed s w e
  | arrival {e : ProcEntry} (harrived : Arrived s w e) :
      Backed s w (arrivalEvidence (wallAt s w.step) (e.pid, .of e))
  | stop {id : Identity} {sp : Span} (hlived : Lived s.procs id sp) (hgone : Gone s.procs sp) :
      Backed s w (stopEvidence (stopRecord s.procs (id, sp)))

theorem shiftEvidence_eq_some {series : List (Binary64 × Binary64)}
    {moved : Binary64 → Binary64 → Bool} {evidence : Binary64 → Binary64 → Evidence}
    {e : Evidence} : w.shiftEvidence series moved evidence = some e ↔
      ∃ before after, w.shift series = some (before, after) ∧ moved before after = true ∧
        evidence before after = e := by
  simp only [StepTimes.shiftEvidence, Option.map_eq_some_iff, Option.filter_eq_some_iff,
    Prod.exists, and_assoc]

/-- All evidence is backed. -/
theorem backed_of_collected {e : Evidence} (he : e ∈ collected s w) : Backed s w e := by
  rw [collected] at he
  simp only [List.mem_cons, List.mem_append, List.mem_filterMap, Option.mem_toList, List.mem_map]
    at he
  rcases he with rfl | ⟨name, hname, he⟩ | he | he | he | he | ⟨⟨pid, seen⟩, hseen, rfl⟩ |
    ⟨st, hst, rfl⟩
  · exact .sensor
  · obtain ⟨before, after, hshift, -, rfl⟩ := shiftEvidence_eq_some.mp he
    exact .shift (Or.inl ⟨name, hname, rfl⟩) hshift rfl
  · obtain ⟨before, after, hshift, -, rfl⟩ := shiftEvidence_eq_some.mp he
    exact .shift (Or.inr (by simp)) hshift rfl
  · obtain ⟨before, after, hshift, -, rfl⟩ := shiftEvidence_eq_some.mp he
    exact .shift (Or.inr (by simp)) hshift rfl
  · obtain ⟨before, after, hshift, hmoved, rfl⟩ := shiftEvidence_eq_some.mp he
    exact .package hshift (of_decide_eq_true hmoved) rfl rfl
  · obtain ⟨before, after, hshift, -, rfl⟩ := shiftEvidence_eq_some.mp he
    exact .shift (Or.inr (by simp)) hshift rfl
  · obtain ⟨e, harrived, rfl, rfl⟩ := mem_arrivals.mp (List.mem_of_mem_take hseen)
    exact .arrival harrived
  · obtain ⟨lives, -, hlives, heq⟩ := lifecycle_spec s.procs
    rw [heq] at hst
    obtain ⟨⟨id, sp⟩, hmem, rfl⟩ := List.mem_map.mp (List.mem_of_mem_take hst)
    obtain ⟨hmem, hgone⟩ := List.mem_filter.mp hmem
    exact .stop ((hlives id sp).mp hmem) (of_decide_eq_true hgone)

theorem filter_watts_of_none {es : List Evidence} (hes : ∀ e ∈ es, e.deltaW = none) :
    es.filter (fun e => e.deltaW.isSome) = [] := by
  rw [List.filter_eq_nil_iff]
  intro e he
  rw [hes e he]
  exact Bool.false_ne_true

theorem filter_watts_of_shift {series : List (Binary64 × Binary64)}
    {moved : Binary64 → Binary64 → Bool} {evidence : Binary64 → Binary64 → Evidence}
    (hnone : ∀ before after, (evidence before after).deltaW = none) :
    (w.shiftEvidence series moved evidence).toList.filter (fun e => e.deltaW.isSome) = [] := by
  refine filter_watts_of_none fun e he => ?_
  obtain ⟨before, after, -, -, rfl⟩ := shiftEvidence_eq_some.mp (Option.mem_toList.mp he)
  exact hnone before after

/-- Only the package power is in watts. -/
theorem watts_collected (s : SessionData) (w : StepTimes) :
    (collected s w).filter (fun e => e.deltaW.isSome) = (packageEvidence s w).toList := by
  have hgpu : ((stepAdapters s).filterMap (gpuEvidence s w)).filter (fun e => e.deltaW.isSome) =
      [] := by
    refine filter_watts_of_none fun e he => ?_
    obtain ⟨name, -, he⟩ := List.mem_filterMap.mp he
    obtain ⟨before, after, -, -, rfl⟩ := shiftEvidence_eq_some.mp he
    rfl
  have hpackage : (packageEvidence s w).toList.filter (fun e => e.deltaW.isSome) =
      (packageEvidence s w).toList := by
    refine List.filter_eq_self.mpr fun e he => ?_
    obtain ⟨before, after, -, -, rfl⟩ := shiftEvidence_eq_some.mp (Option.mem_toList.mp he)
    rfl
  have harrivals := filter_watts_of_none
    (List.forall_mem_map (l := (arrivals s w).take 5) (f := arrivalEvidence (wallAt s w.step))
      (P := fun e => e.deltaW = none) |>.mpr fun _ _ => rfl)
  have hstops := filter_watts_of_none
    (List.forall_mem_map (l := (lifecycleAcrossTicks s.procs).2.take 5) (f := stopEvidence)
      (P := fun e => e.deltaW = none) |>.mpr fun _ _ => rfl)
  rw [collected, List.filter_cons_of_neg Bool.false_ne_true]
  simp only [List.filter_append]
  rw [hgpu, hpackage, harrivals, hstops, cpuEvidence, filter_watts_of_shift fun _ _ => rfl,
    c3Evidence, filter_watts_of_shift fun _ _ => rfl, brightnessEvidence,
    filter_watts_of_shift fun _ _ => rfl]
  simp only [List.nil_append, List.append_nil]

theorem rank_lt_top_iff (e : Evidence) : e.rank < ⊤ ↔ e.deltaW.isSome = true := by
  rw [Evidence.rank]
  cases e.deltaW with
  | none => exact iff_of_false (lt_irrefl _) Bool.false_ne_true
  | some x => exact iff_of_true (WithTop.coe_lt_top _) rfl

theorem rank_eq_top_iff (e : Evidence) : e.rank = ⊤ ↔ e.deltaW.isNone = true := by
  rw [← not_iff_not, ← ne_eq, ← lt_top_iff_ne_top, rank_lt_top_iff]
  cases e.deltaW <;> simp

/-- Sorted evidence has what is in watts first and then the rest as it was collected. -/
theorem sorted_collected (s : SessionData) (w : StepTimes) :
    stableSort Evidence.rank (collected s w) =
      (packageEvidence s w).toList ++ (collected s w).filter fun e => e.deltaW.isNone := by
  have hsplit := ascending_split Evidence.rank ⊤ (ascending_stableSort _ (collected s w))
  have hbehind : (stableSort Evidence.rank (collected s w)).filter (fun e => ⊤ < e.rank) = [] :=
    List.filter_eq_nil_iff.mpr fun e _ => by simp
  rw [filter_lt_stableSort, filter_stableSort, hbehind, List.append_nil] at hsplit
  simp only [rank_lt_top_iff, rank_eq_top_iff, Bool.decide_eq_true, watts_collected] at hsplit
  rw [hsplit]
  cases packageEvidence s w <;> rfl

/-- What holds of a diagnosis. -/
structure Diagnosed (s : SessionData) (d : Diagnosis) : Prop where
  dischargeN : d.dischargeN = (dischargeSeries s).length
  medianW : d.medianW = Stats.median ((dischargeSeries s).map Prod.snd)
  step : d.step = detectStep ((dischargeSeries s).map Prod.snd)
    (diagnosisWindow (dischargeSeries s).length) 1.0
  noted : d.note = "" ↔ d.step.isSome = true
  /-- An estimate is never subtracted. -/
  unattributedW : d.unattributedW = d.step.map StepChange.deltaW
  /-- Evidence in watts is the package power only, and comes first. -/
  evidence : ∀ st, d.step = some st → d.evidence =
    (packageEvidence s (stepTimes s st)).toList ++
      (collected s (stepTimes s st)).filter fun e => e.deltaW.isNone
  backed : ∀ st, d.step = some st → ∀ e ∈ d.evidence, Backed s (stepTimes s st) e
  quiet : d.step = none → ∀ e ∈ d.evidence, e = gpuSensorEvidence

/-- Whatever a session holds: the diagnosis is about the largest step of its discharge, leaves the
whole of it unattributed, and lists nothing that the session does not back. -/
theorem diagnoseSession_diagnosed (s : SessionData) (baselineMedian : Option Binary64) :
    Diagnosed s (diagnoseSession s baselineMedian) := by
  have hcount : ((dischargeSeries s).map Prod.snd).length = (dischargeSeries s).length :=
    List.length_map _
  rw [diagnoseSession]
  dsimp only
  by_cases hvals : (dischargeSeries s).map Prod.snd = []
  · -- without discharge there is no step
    have hempty : (dischargeSeries s).length = 0 := by rw [← hcount, hvals, List.length_nil]
    have hstep : detectStep ((dischargeSeries s).map Prod.snd)
        (diagnosisWindow (dischargeSeries s).length) 1.0 = none := by
      rw [hempty, hvals, detectStep, if_pos (Or.inr (by decide))]
    rw [if_pos hvals]
    refine ⟨hcount, ?_, hstep.symm, iff_of_false (by simp) Bool.false_ne_true, rfl,
      fun st h => (by cases h), fun st h => (by cases h),
      fun _ e he => absurd he List.not_mem_nil⟩
    rw [hvals]
    rfl
  · obtain ⟨summary, hsummary, hmedian⟩ := exists_summary hvals
    rw [if_neg hvals, hsummary]
    dsimp only
    rw [hcount]
    cases hstep : detectStep ((dischargeSeries s).map Prod.snd)
        (diagnosisWindow (dischargeSeries s).length) 1.0 with
    | none =>
        exact ⟨rfl, hmedian.symm, hstep.symm, iff_of_false (by simp) Bool.false_ne_true, rfl,
          fun st h => (by cases h), fun st h => (by cases h),
          fun _ e he => List.mem_singleton.mp he⟩
    | some st =>
        refine ⟨rfl, hmedian.symm, hstep.symm, iff_of_true rfl rfl, rfl, fun st' h => ?_,
          fun st' h e he => ?_, fun h => by cases h⟩
        · obtain rfl := Option.some.inj h
          exact sorted_collected s (stepTimes s st)
        · obtain rfl := Option.some.inj h
          exact backed_of_collected ((stableSort_perm _ _).mem_iff.mp he)

end Diagnoses

end PowerForensics.Analysis
