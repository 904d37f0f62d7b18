import Mathlib.Data.Prod.Lex
import PowerForensics.Core.Analyze
import PowerForensics.System.Lookup
import PowerForensics.System.Merging
import PowerForensics.System.Tables

/-! # Processes of a range

The process snapshots of a range are gathered by process id. An entry has the name under which its
process id was listed first, and counts how often it was listed.
-/

namespace PowerForensics.Analyze

open Session Merging Tables

/-! ## Model -/

structure ProcessEntry where
  pid : UInt32
  name : String
  ppid : UInt32
  cpuMedianPct : Option Binary64
  cpuMaxPct : Option Binary64
  presence : Nat
  ticks : Nat
  firstSeenMs : Option UInt64
  lastSeenMs : Option UInt64
  startUnixMs : Option UInt64

structure ProcessAnalysis where
  ticks : Nat
  entries : List ProcessEntry
  totalThreads : Option UInt64
  inaccessible : Option UInt64
  truncated : Option Bool
  /-- A snapshot was incomplete; none is unknown, not complete. -/
  incomplete : Option Bool
  note : String

/-- What is known of a process id so far. -/
structure PidAgg where
  name : String
  ppid : UInt32
  startUnixMs : Option UInt64
  cpu : List Binary64
  presence : Nat
  first : Option UInt64
  last : Option UInt64

/-- A process id that was not listed before. -/
def PidAgg.fresh (e : ProcEntry) : PidAgg := ⟨e.name, e.ppid, e.startUnixMs, [], 0, none, none⟩

/-- One more listing of a process id, at a wall time. -/
def PidAgg.list (known : Option PidAgg) (listing : UInt64 × ProcEntry) : PidAgg :=
  let (wall, e) := listing
  let agg := known.getD (.fresh e)
  { agg with
    presence := agg.presence + 1
    cpu := agg.cpu ++ e.cpu.val.toList
    first := some (agg.first.elim wall fun f => min f wall)
    last := some (agg.last.elim wall fun l => max l wall) }

def PidAgg.entry (ticks : Nat) (e : UInt32 × PidAgg) : ProcessEntry where
  pid := e.1
  name := e.2.name
  ppid := e.2.ppid
  cpuMedianPct := Stats.median e.2.cpu
  cpuMaxPct := e.2.cpu.max?
  presence := e.2.presence
  ticks := ticks
  firstSeenMs := e.2.first
  lastSeenMs := e.2.last
  startUnixMs := e.2.startUnixMs

/-- The snapshots of a range. -/
def snapshots (s : SessionData) (fromMs toMs : UInt64) : List ProcPoint :=
  s.procs.filter fun p => fromMs ≤ monoWall s p.t && monoWall s p.t ≤ toMs

/-- What the snapshots of a range list, one after the other. -/
def listings (s : SessionData) (fromMs toMs : UInt64) : List (UInt64 × ProcEntry) :=
  (snapshots s fromMs toMs).flatMap fun p => p.top.map fun e => (monoWall s p.t, e)

/-- The median backwards, then the process id. -/
def entryKey (e : ProcessEntry) : Int ×ₗ Nat :=
  toLex (-(e.cpuMedianPct.getD (.infinity true)).totalRank, e.pid.toNat)

def incompleteOf (ticks : List ProcPoint) : Option Bool :=
  let known := ticks.filter fun p => p.inaccessible.isSome || p.truncated.isSome
  if known.isEmpty then none
  else some (known.any fun p => 0 < p.inaccessible.getD 0 || p.truncated.getD false)

def processAnalysis (s : SessionData) (fromMs toMs : UInt64) : ProcessAnalysis :=
  let ticks := snapshots s fromMs toMs
  if ticks.isEmpty then
    ⟨0, [], none, none, none, none, "No process snapshot falls inside the selected interval."⟩
  else
    let map := gather (fun listing => listing.2.pid) PidAgg.list (listings s fromMs toMs)
    let incomplete := incompleteOf ticks
    { ticks := ticks.length
      entries := stableSort entryKey (map.map (PidAgg.entry ticks.length))
      totalThreads := ticks.foldl (fun total p => p.totalThreads.or total) none
      inaccessible := ticks.foldl
        (fun most p => p.inaccessible.elim most fun i => some (most.elim i fun m => max m i)) none
      truncated := ticks.foldl
        (fun any p => p.truncated.elim any fun t => some (any.getD false || t)) none
      incomplete
      note := match incomplete with
        | some true => "Process evidence incomplete for this interval."
        | some false => "Process enumeration reported complete for this interval."
        | none => "Process enumeration completeness was not recorded for this interval." }

/-! ## Entries -/

section Entries

variable (s : SessionData) (fromMs toMs : UInt64)

theorem ticks_processAnalysis :
    (processAnalysis s fromMs toMs).ticks = (snapshots s fromMs toMs).length := by
  rw [processAnalysis]
  dsimp only
  split
  next hempty => rw [List.isEmpty_iff.mp hempty, List.length_nil]
  next => rfl

/-- The process ids of a range with what is known of them. -/
def pids : List (UInt32 × PidAgg) :=
  gather (fun listing => listing.2.pid) PidAgg.list (listings s fromMs toMs)

theorem entries_perm : (processAnalysis s fromMs toMs).entries.Perm
    ((pids s fromMs toMs).map (PidAgg.entry (snapshots s fromMs toMs).length)) := by
  rw [processAnalysis]
  dsimp only
  split
  next hempty =>
    rw [pids, listings, List.isEmpty_iff.mp hempty]
    exact List.Perm.nil
  next => exact stableSort_perm entryKey _

/-- A process id is listed as often as it is counted, and keeps its first name. -/
theorem foldl_list (known : List (UInt64 × ProcEntry)) :
    known.foldl (fun agg listing => some (PidAgg.list agg listing)) none = none ∧ known = [] ∨
      ∃ agg, known.foldl (fun agg listing => some (PidAgg.list agg listing)) none = some agg ∧
        agg.presence = known.length ∧ some agg.name = known.head?.map fun l => l.2.name := by
  induction known using List.reverseRecOn with
  | nil => exact Or.inl ⟨rfl, rfl⟩
  | append_singleton known listing ih =>
      right
      rw [List.foldl_append, List.foldl_cons, List.foldl_nil]
      refine ⟨_, rfl, ?_⟩
      rcases ih with ⟨hnone, rfl⟩ | ⟨agg, hsome, hpresence, hname⟩
      · rw [hnone]
        exact ⟨rfl, rfl⟩
      · rw [hsome]
        cases known with
        | nil => cases hname
        | cons first known =>
            refine ⟨?_, hname⟩
            rw [List.length_append, List.length_singleton, ← hpresence]
            rfl

/-- The name a process id is listed with first. -/
def firstName (pid : UInt32) : Option String :=
  ((listings s fromMs toMs).find? fun l => l.2.pid = pid).map fun l => l.2.name

theorem mem_pids {pid : UInt32} {agg : PidAgg} (h : (pid, agg) ∈ pids s fromMs toMs) :
    firstName s fromMs toMs pid = some agg.name ∧
      agg.presence = (listings s fromMs toMs).countP fun l => l.2.pid = pid := by
  have hlookup := (Lookup.lookup_eq_some (nodup_keys_gather _)).mpr h
  rw [lookup_gather] at hlookup
  rcases foldl_list ((listings s fromMs toMs).filter fun l => l.2.pid = pid) with
    ⟨hnone, -⟩ | ⟨agg', hsome, hpresence, hname⟩
  · rw [hnone] at hlookup
    cases hlookup
  · obtain rfl := Option.some.inj (hlookup.symm.trans hsome)
    rw [List.countP_eq_length_filter, firstName, ← List.head?_filter]
    exact ⟨hname.symm, hpresence⟩

end Entries

end PowerForensics.Analyze

/-! ## Processes that share a process id

The entries of a range are kept by process id alone. They tell its processes apart exactly where
no process id of the range was listed for two of them.
-/

namespace PowerForensics.Analyze

open Session Tables

/-- Two listings can be of one process. -/
def SameProcess (a b : ProcEntry) : Prop :=
  a.pid = b.pid ∧ a.name = b.name ∧ ∀ x ∈ a.startUnixMs, ∀ y ∈ b.startUnixMs, x = y

/-- An entry says what a group of listings with its process id comes to. -/
structure Aggregates (group : List (UInt64 × ProcEntry)) (e : ProcessEntry) : Prop where
  pid : ∀ l ∈ group, l.2.pid = e.pid
  cpuMedian : e.cpuMedianPct = Stats.median (group.flatMap fun l => l.2.cpu.val.toList)
  cpuMax : e.cpuMaxPct = (group.flatMap fun l => l.2.cpu.val.toList).max?
  presence : e.presence = group.length
  firstSeen : e.firstSeenMs = (group.map Prod.fst).min?
  lastSeen : e.lastSeenMs = (group.map Prod.fst).max?

/-- Every listing of a range is in one entry, and no entry has listings of two processes. -/
def ProcessesApart (s : SessionData) (fromMs toMs : UInt64) : Prop :=
  ∃ groups : List (List (UInt64 × ProcEntry)),
    groups.flatten.Perm (listings s fromMs toMs) ∧
      List.Forall₂ Aggregates groups (processAnalysis s fromMs toMs).entries ∧
      ∀ group ∈ groups, ∀ a ∈ group, ∀ b ∈ group, SameProcess a.2 b.2

/-! ## Entries -/

/-- What is known of a process id after its listings. -/
theorem foldl_list_cons (first : UInt64 × ProcEntry) (rest : List (UInt64 × ProcEntry)) :
    (first :: rest).foldl (fun agg listing => some (PidAgg.list agg listing)) none =
      some { PidAgg.fresh first.2 with
        cpu := (first :: rest).flatMap fun l => l.2.cpu.val.toList
        presence := rest.length + 1
        first := ((first :: rest).map Prod.fst).min?
        last := ((first :: rest).map Prod.fst).max? } := by
  induction rest using List.reverseRecOn with
  | nil =>
      rw [List.foldl_cons, List.foldl_nil, List.flatMap_cons, List.flatMap_nil, List.append_nil]
      rfl
  | append_singleton rest listing ih =>
      rw [← List.cons_append, List.foldl_append, ih, List.foldl_cons, List.foldl_nil,
        List.flatMap_append, List.flatMap_singleton, List.length_append, List.length_singleton,
        List.map_append, List.map_singleton, List.map_cons, List.cons_append, List.min?_cons',
        List.max?_cons', List.min?_cons', List.max?_cons', List.foldl_append, List.foldl_append]
      rfl

section Entries

variable {s : SessionData} {fromMs toMs : UInt64}

/-- The listings of a range with a process id. -/
def ofPid (s : SessionData) (fromMs toMs : UInt64) (pid : UInt32) : List (UInt64 × ProcEntry) :=
  (listings s fromMs toMs).filter fun l => l.2.pid = pid

theorem aggregates_ofPid {e : ProcessEntry} (he : e ∈ (processAnalysis s fromMs toMs).entries) :
    Aggregates (ofPid s fromMs toMs e.pid) e := by
  rw [(entries_perm s fromMs toMs).mem_iff] at he
  obtain ⟨⟨pid, agg⟩, hmem, rfl⟩ := List.mem_map.mp he
  have hlookup := (Lookup.lookup_eq_some (nodup_keys_gather _)).mpr hmem
  rw [lookup_gather] at hlookup
  have hpid : (PidAgg.entry (snapshots s fromMs toMs).length (pid, agg)).pid = pid := rfl
  rw [hpid, ofPid]
  have hall : ∀ l ∈ (listings s fromMs toMs).filter fun l => l.2.pid = pid, l.2.pid = pid := by
    intro l hl
    exact of_decide_eq_true (List.mem_filter.mp hl).2
  cases hgroup : (listings s fromMs toMs).filter fun l => l.2.pid = pid with
  | nil =>
      rw [hgroup] at hlookup
      cases hlookup
  | cons first rest =>
      rw [hgroup] at hall hlookup
      rw [foldl_list_cons] at hlookup
      obtain rfl := Option.some.inj hlookup
      exact ⟨hall, rfl, rfl, rfl, rfl, rfl⟩

theorem pids_entries : ((processAnalysis s fromMs toMs).entries.map ProcessEntry.pid).Perm
    ((pids s fromMs toMs).map Prod.fst) := by
  have hperm := (entries_perm s fromMs toMs).map ProcessEntry.pid
  rw [List.map_map] at hperm
  exact hperm

theorem nodup_pids : ((processAnalysis s fromMs toMs).entries.map ProcessEntry.pid).Nodup :=
  pids_entries.nodup_iff.mpr (nodup_keys_gather _)

theorem mem_pids_entries {l : UInt64 × ProcEntry} (hl : l ∈ listings s fromMs toMs) :
    l.2.pid ∈ (processAnalysis s fromMs toMs).entries.map ProcessEntry.pid :=
  pids_entries.mem_iff.mpr (mem_keys_gather.mpr (List.mem_map_of_mem hl))

/-- Listings of a process id are in one group, so they are of one process. -/
theorem ProcessesApart.sameProcess (h : ProcessesApart s fromMs toMs) {a b : UInt64 × ProcEntry}
    (ha : a ∈ listings s fromMs toMs) (hb : b ∈ listings s fromMs toMs)
    (hpid : a.2.pid = b.2.pid) : SameProcess a.2 b.2 := by
  obtain ⟨groups, hperm, haggregates, hone⟩ := h
  have hgroup : ∀ l ∈ listings s fromMs toMs, ∃ i, ∃ hi : i < groups.length,
      ∃ he : i < (processAnalysis s fromMs toMs).entries.length, l ∈ groups[i] ∧
        l.2.pid = ((processAnalysis s fromMs toMs).entries[i]).pid := by
    intro l hl
    obtain ⟨group, hgroup, hin⟩ := List.mem_flatten.mp (hperm.mem_iff.mpr hl)
    obtain ⟨i, hi, rfl⟩ := List.getElem_of_mem hgroup
    have he := haggregates.length_eq ▸ hi
    exact ⟨i, hi, he, hin, (haggregates.get hi he).pid l hin⟩
  obtain ⟨i, hi, hei, hain, hapid⟩ := hgroup a ha
  obtain ⟨j, hj, hej, hbin, hbpid⟩ := hgroup b hb
  -- there is one entry with the process id, so both are in its group
  have hij : i = j := by
    have hentry := List.inj_on_of_nodup_map nodup_pids (List.getElem_mem hei)
      (List.getElem_mem hej) (by rw [← hapid, ← hbpid, hpid])
    exact nodup_pids.of_map.getElem_inj_iff.mp hentry
  subst hij
  exact hone _ (List.getElem_mem hi) a hain b hbin

/-- The entries of a range keep its processes apart exactly if no process id was listed for two
of them. -/
theorem processesApart_iff (s : SessionData) (fromMs toMs : UInt64) :
    ProcessesApart s fromMs toMs ↔
      ∀ a ∈ listings s fromMs toMs, ∀ b ∈ listings s fromMs toMs,
        a.2.pid = b.2.pid → SameProcess a.2 b.2 := by
  constructor
  · exact fun h a ha b hb => h.sameProcess ha hb
  · intro h
    refine ⟨(processAnalysis s fromMs toMs).entries.map fun e => ofPid s fromMs toMs e.pid,
      ?_, ?_, ?_⟩
    · have hperm : (((processAnalysis s fromMs toMs).entries.map ProcessEntry.pid).flatMap
          fun pid => (listings s fromMs toMs).filter fun l => l.2.pid = pid).Perm
            (listings s fromMs toMs) :=
        flatMap_filter_perm nodup_pids fun l hl => mem_pids_entries hl
      rw [List.flatMap_map] at hperm
      rw [← List.flatMap_def]
      exact hperm
    · rw [List.forall₂_map_left_iff, List.forall₂_same]
      exact fun e he => aggregates_ofPid he
    · intro group hgroup a ha b hb
      obtain ⟨e, -, rfl⟩ := List.mem_map.mp hgroup
      obtain ⟨ha, hapid⟩ := List.mem_filter.mp ha
      obtain ⟨hb, hbpid⟩ := List.mem_filter.mp hb
      exact h a ha b hb ((of_decide_eq_true hapid).trans (of_decide_eq_true hbpid).symm)

end Entries

/-- A snapshot of one process. -/
def snapshotOf (name : String) (startUnixMs : UInt64) : ProcPoint :=
  { (default : ProcPoint) with
    top := [{ (default : ProcEntry) with pid := 7, name, startUnixMs := some startUnixMs }] }

/-- A process ends, and another one gets its process id. -/
def recycled : SessionData :=
  { (default : SessionData) with procs := [snapshotOf "game.exe" 1, snapshotOf "updater.exe" 2] }

theorem not_apart_recycled : ¬ ProcessesApart recycled 0 (.ofNat (2 ^ 64 - 1)) := by
  intro h
  have hin : ∀ p ∈ recycled.procs, ∀ e ∈ p.top,
      (monoWall recycled p.t, e) ∈ listings recycled 0 (.ofNat (2 ^ 64 - 1)) := by
    intro p hp e he
    refine List.mem_flatMap.mpr ⟨p, List.mem_filter.mpr ⟨hp, ?_⟩, List.mem_map_of_mem he⟩
    rw [Bool.and_eq_true, decide_eq_true_eq, decide_eq_true_eq, UInt64.le_iff_toNat_le,
      UInt64.le_iff_toNat_le]
    exact ⟨Nat.zero_le _, Nat.le_pred_of_lt (UInt64.toNat_lt _)⟩
  have hsame := h.sameProcess (hin _ List.mem_cons_self _ List.mem_cons_self)
    (hin _ (List.mem_cons_of_mem _ List.mem_cons_self) _ List.mem_cons_self) rfl
  exact absurd hsame.2.1 (by decide)

end PowerForensics.Analyze
