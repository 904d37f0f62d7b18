import Mathlib.Data.String.Basic
import PowerForensics.Binary64.Order
import PowerForensics.Core.AnalyzeProcesses
import PowerForensics.Text.Lines

/-! # Processes of two ranges

Processes of two ranges are matched by a name that leaves out letter case and extension. A row has
how often the processes of a name were listed on either side, beside the number of snapshots.
Several processes of one name are listed in one snapshot, so the first may exceed the second.
-/

namespace PowerForensics.Compare

open Session Analyze Merging Tables

/-! ## Model -/

/-- A name without white space around it, letter case and extension. -/
def normalizeName (name : String) : String :=
  let n := (Lines.trim name.toList).map Char.toLower
  .ofList ((n.dropSuffix? ".exe".toList).getD n)

structure ProcAgg where
  display : String
  pids : List UInt32
  cpuMax : Option Binary64
  presence : Nat
  ticks : Nat

/-- One more entry of a name. -/
def ProcAgg.add (known : Option ProcAgg) (e : ProcessEntry) : ProcAgg :=
  let agg := known.getD ⟨"", [], none, 0, 0⟩
  { display := if agg.display = "" then e.name else agg.display
    pids := if e.pid ∈ agg.pids then agg.pids else agg.pids ++ [e.pid]
    cpuMax := e.cpuMedianPct.elim agg.cpuMax fun v => some (agg.cpuMax.elim v fun u => max u v)
    presence := agg.presence + e.presence
    ticks := max agg.ticks e.ticks }

def aggregateProcesses (pa : ProcessAnalysis) : List (String × ProcAgg) :=
  gather (fun e => normalizeName e.name) ProcAgg.add pa.entries

inductive Presence where
  | both
  | aOnly
  | bOnly
  deriving DecidableEq

structure ProcessDifference where
  identity : String
  displayName : String
  aCpuMedianPct : Option Binary64
  bCpuMedianPct : Option Binary64
  delta : Option Binary64
  presence : Presence
  aPresence : Nat
  bPresence : Nat
  aTicks : Nat
  bTicks : Nat
  aAmbiguous : Bool
  bAmbiguous : Bool
  note : String

structure ProcessComparison where
  aTicks : Nat
  bTicks : Nat
  aIncomplete : Option Bool
  bIncomplete : Option Bool
  aTotalThreads : Option UInt64
  bTotalThreads : Option UInt64
  incomplete : Bool
  rows : List ProcessDifference

def incompleteEither (a b : ProcessAnalysis) : Bool :=
  a.incomplete = some true || b.incomplete = some true

def processDifference (a b : ProcessAnalysis) (key : String) : ProcessDifference :=
  let ea := (aggregateProcesses a).lookup key
  let eb := (aggregateProcesses b).lookup key
  let aCpu := ea.bind ProcAgg.cpuMax
  let bCpu := eb.bind ProcAgg.cpuMax
  let presence :=
    if ea.isSome then if eb.isSome then .both else .aOnly
    else .bOnly
  { identity := key
    displayName := ((ea.or eb).map ProcAgg.display).getD ""
    aCpuMedianPct := aCpu
    bCpuMedianPct := bCpu
    delta := aCpu.bind fun x => bCpu.map fun y => y - x
    presence
    aPresence := ea.elim 0 ProcAgg.presence
    bPresence := eb.elim 0 ProcAgg.presence
    aTicks := ea.elim a.ticks ProcAgg.ticks
    bTicks := eb.elim b.ticks ProcAgg.ticks
    aAmbiguous := ea.any fun e => 1 < e.pids.length
    bAmbiguous := eb.any fun e => 1 < e.pids.length
    note := match presence, incompleteEither a b with
      | .aOnly, true => "not observed in B (evidence incomplete)"
      | .aOnly, false => "observed only in A"
      | .bOnly, true => "not observed in A (evidence incomplete)"
      | .bOnly, false => "observed only in B"
      | .both, _ => "observed on both sides" }

/-- The names of both sides in order, each one once. -/
def processKeys (a b : ProcessAnalysis) : List String :=
  (stableSort id ((aggregateProcesses a).map Prod.fst ++ (aggregateProcesses b).map Prod.fst)).dedup

/-- Rows of both sides first, then the greater differences, then the names. -/
def rowKey (r : ProcessDifference) : Nat ×ₗ Int ×ₗ String :=
  toLex (if r.presence = .both then 0 else 1,
    toLex (-(r.delta.getD 0.0).abs.totalRank, r.identity))

def maxRows : Nat := 200

def processComparison (a b : ProcessAnalysis) : ProcessComparison where
  aTicks := a.ticks
  bTicks := b.ticks
  aIncomplete := a.incomplete
  bIncomplete := b.incomplete
  aTotalThreads := a.totalThreads
  bTotalThreads := b.totalThreads
  incomplete := incompleteEither a b
  rows := (stableSort rowKey ((processKeys a b).map (processDifference a b))).take maxRows

/-! ## Rows -/

section Rows

variable {a b : ProcessAnalysis}

theorem mem_processKeys {key : String} : key ∈ processKeys a b ↔
    ((aggregateProcesses a).lookup key).isSome ∨ ((aggregateProcesses b).lookup key).isSome := by
  rw [processKeys, List.mem_dedup, (stableSort_perm id _).mem_iff, List.mem_append,
    Lookup.lookup_isSome, Lookup.lookup_isSome]

theorem nodup_processKeys : (processKeys a b).Nodup := List.nodup_dedup _

/-- A name behind as many others as there are rows. -/
def Outranked (a b : ProcessAnalysis) (key : String) : Prop :=
  maxRows ≤ (processKeys a b).countP fun k =>
    rowKey (processDifference a b k) < rowKey (processDifference a b key)

/-- No two names have the same place among the rows. -/
theorem filter_rowKey {key : String} (hkey : key ∈ processKeys a b) :
    ((processKeys a b).map (processDifference a b)).filter
        (fun y => rowKey y = rowKey (processDifference a b key)) = [processDifference a b key] := by
  have hsame : ∀ k, rowKey (processDifference a b k) = rowKey (processDifference a b key) ↔
      k = key := by
    intro k
    refine ⟨fun h => ?_, fun h => by rw [h]⟩
    exact (Prod.mk.inj (Prod.mk.inj h).2).2
  have hiff : (fun y => decide (rowKey y = rowKey (processDifference a b key))) ∘
      processDifference a b = fun k => decide (k = key) := by
    funext k
    simp [hsame]
  rw [List.filter_map, hiff, List.filter_eq, List.count_eq_one_of_mem nodup_processKeys hkey,
    List.replicate_one, List.map_singleton]

/-- The rows are those of the names that are not outranked. -/
theorem mem_rows {r : ProcessDifference} : r ∈ (processComparison a b).rows ↔
    ∃ key ∈ processKeys a b, ¬Outranked a b key ∧ processDifference a b key = r := by
  have hmem : ∀ key ∈ processKeys a b,
      processDifference a b key ∈ (processComparison a b).rows ↔ ¬Outranked a b key := by
    intro key hkey
    rw [processComparison, mem_take_stableSort, filter_rowKey hkey, List.countP_map, Outranked]
    change _ ↔ ¬maxRows ≤ (processKeys a b).countP
      ((fun y => decide (rowKey y < rowKey (processDifference a b key))) ∘ processDifference a b)
    generalize (processKeys a b).countP _ = n
    rcases Nat.lt_or_ge n maxRows with hlt | hge
    · obtain ⟨m, hm⟩ := Nat.exists_eq_succ_of_ne_zero (Nat.sub_ne_zero_of_lt hlt)
      rw [hm]
      simp [hlt]
    · rw [Nat.sub_eq_zero_of_le hge]
      simp [hge]
  constructor
  · intro hr
    have hall := (stableSort_perm rowKey _).mem_iff.mp (List.mem_of_mem_take hr)
    obtain ⟨key, hkey, rfl⟩ := List.mem_map.mp hall
    exact ⟨key, hkey, (hmem key hkey).mp hr, rfl⟩
  · rintro ⟨key, hkey, hrank, rfl⟩
    exact (hmem key hkey).mpr hrank

/-- Entries of a name: what they count is added, and they agree in the number of snapshots. -/
theorem foldl_add (entries : List ProcessEntry) {ticks : Nat}
    (hticks : ∀ e ∈ entries, e.ticks = ticks) :
    (entries.foldl (fun agg e => some (ProcAgg.add agg e)) none).elim 0 ProcAgg.presence =
        (entries.map ProcessEntry.presence).foldr (· + ·) 0 ∧
      (entries.foldl (fun agg e => some (ProcAgg.add agg e)) none).elim ticks ProcAgg.ticks =
        ticks ∧
      ((entries.foldl (fun agg e => some (ProcAgg.add agg e)) none).isSome ↔ entries ≠ []) := by
  induction entries using List.reverseRecOn with
  | nil => exact ⟨rfl, rfl, by simp⟩
  | append_singleton entries e ih =>
      obtain ⟨hpresence, hsame, -⟩ := ih fun e' he' => hticks e' (List.mem_append_left _ he')
      have he := hticks e (List.mem_append_right _ List.mem_cons_self)
      rw [← List.sum_eq_foldr] at hpresence
      rw [List.foldl_append, List.foldl_cons, List.foldl_nil, List.map_append, List.map_singleton,
        ← List.sum_eq_foldr, List.sum_append, List.sum_singleton, ← hpresence]
      refine ⟨?_, ?_, by simp⟩
      · cases entries.foldl (fun agg e => some (ProcAgg.add agg e)) none with
        | none => rfl
        | some agg => rfl
      · cases hagg : entries.foldl (fun agg e => some (ProcAgg.add agg e)) none with
        | none => exact (Nat.zero_max e.ticks).trans he
        | some agg =>
            rw [hagg] at hsame
            change max agg.ticks e.ticks = ticks
            rw [show agg.ticks = ticks from hsame, he, max_self]

end Rows

/-! ## Presence -/

section Presence

variable (s : SessionData) (fromMs toMs : UInt64) (key : String)

def hasName (name : String) : Bool := normalizeName name = key

/-- A process id whose first name is a name. -/
def shownAs (pid : UInt32) : Bool := (firstName s fromMs toMs pid).any (hasName key)

/-- Listings of the process ids that were first listed under a name. -/
def listed : Nat :=
  (listings s fromMs toMs).countP fun l => shownAs s fromMs toMs key l.2.pid

/-- Snapshots in which a process with a name is listed. -/
def named : Nat :=
  (snapshots s fromMs toMs).countP fun p => p.top.any fun e => hasName key e.name

theorem shownAs_eq {e : UInt32 × PidAgg} (he : e ∈ pids s fromMs toMs) :
    shownAs s fromMs toMs key e.1 = hasName key e.2.name := by
  rw [shownAs, (mem_pids s fromMs toMs he).1, Option.any_some]

/-- What the entries of a name count are the listings of its process ids. -/
theorem foldr_presence : (((processAnalysis s fromMs toMs).entries.filter
    fun e => normalizeName e.name = key).map ProcessEntry.presence).foldr (· + ·) 0 =
      listed s fromMs toMs key := by
  have hperm := ((entries_perm s fromMs toMs).filter
    fun e => normalizeName e.name = key).map ProcessEntry.presence
  rw [← List.sum_eq_foldr, hperm.sum_eq, List.sum_eq_foldr, List.filter_map, List.map_map]
  have hsame : (pids s fromMs toMs).filter ((fun e : ProcessEntry =>
      decide (normalizeName e.name = key)) ∘ PidAgg.entry (snapshots s fromMs toMs).length) =
      (pids s fromMs toMs).filter (shownAs s fromMs toMs key ∘ Prod.fst) :=
    List.filter_congr fun e he => by
      rw [Function.comp_apply, Function.comp_apply, shownAs_eq s fromMs toMs key he]
      exact decide_eq_decide.mpr Iff.rfl
  have hcounts : ((pids s fromMs toMs).filter (shownAs s fromMs toMs key ∘ Prod.fst)).map
      (ProcessEntry.presence ∘ PidAgg.entry (snapshots s fromMs toMs).length) =
      (((pids s fromMs toMs).map Prod.fst).filter (shownAs s fromMs toMs key)).map fun pid =>
        (listings s fromMs toMs).countP fun l => l.2.pid = pid := by
    rw [List.filter_map, List.map_map]
    exact List.map_congr_left fun e he => (mem_pids s fromMs toMs (List.mem_of_mem_filter he)).2
  rw [hsame, hcounts]
  exact foldr_counts _ _

theorem ticks_entry {e : ProcessEntry} (he : e ∈ (processAnalysis s fromMs toMs).entries) :
    e.ticks = (snapshots s fromMs toMs).length := by
  obtain ⟨p, -, rfl⟩ := List.mem_map.mp ((entries_perm s fromMs toMs).mem_iff.mp he)
  rfl

theorem presence_pos {e : ProcessEntry} (he : e ∈ (processAnalysis s fromMs toMs).entries) :
    0 < e.presence := by
  obtain ⟨⟨pid, agg⟩, hp, rfl⟩ := List.mem_map.mp ((entries_perm s fromMs toMs).mem_iff.mp he)
  have hpid : pid ∈ (pids s fromMs toMs).map Prod.fst := List.mem_map_of_mem hp
  obtain ⟨l, hl, rfl⟩ := List.mem_map.mp (mem_keys_gather.mp hpid)
  change 0 < agg.presence
  rw [(mem_pids s fromMs toMs hp).2, List.countP_pos_iff]
  exact ⟨l, hl, decide_eq_true rfl⟩

/-- A name is present as often as its process ids are listed. -/
theorem presence_eq :
    ((aggregateProcesses (processAnalysis s fromMs toMs)).lookup key).elim 0 ProcAgg.presence =
        listed s fromMs toMs key ∧
      ((aggregateProcesses (processAnalysis s fromMs toMs)).lookup key).elim
          (processAnalysis s fromMs toMs).ticks ProcAgg.ticks =
        (snapshots s fromMs toMs).length ∧
      (((aggregateProcesses (processAnalysis s fromMs toMs)).lookup key).isSome ↔
        0 < listed s fromMs toMs key) := by
  have hsum := foldr_presence s fromMs toMs key
  rw [aggregateProcesses, lookup_gather, ticks_processAnalysis]
  obtain ⟨hpresence, hticks, hsome⟩ := foldl_add
    ((processAnalysis s fromMs toMs).entries.filter fun e => normalizeName e.name = key)
    fun e he => ticks_entry s fromMs toMs (List.mem_of_mem_filter he)
  refine ⟨hpresence.trans hsum, hticks, ?_⟩
  rw [hsome, ← hsum]
  cases hentries : (processAnalysis s fromMs toMs).entries.filter
      fun e => normalizeName e.name = key with
  | nil => simp
  | cons e rest =>
      have he : e ∈ (processAnalysis s fromMs toMs).entries :=
        List.mem_of_mem_filter (hentries ▸ List.mem_cons_self)
      have hpos := presence_pos s fromMs toMs he
      simp only [List.map_cons, List.foldr_cons, ne_eq, reduceCtorEq, not_false_eq_true, true_iff]
      omega

/-- Lists with a member of a kind are at most as many as the members, and exactly as many if none
has two. -/
theorem countP_any_le {α β : Type} (f : α → List β) (p : β → Bool) (xs : List α) :
    (xs.countP fun x => (f x).any p) ≤ (xs.flatMap f).countP p ∧
      ((xs.flatMap f).countP p = (xs.countP fun x => (f x).any p) ↔
        ∀ x ∈ xs, (f x).countP p ≤ 1) := by
  induction xs with
  | nil => simp
  | cons x xs ih =>
      obtain ⟨hle, hiff⟩ := ih
      have hany : (if (f x).any p then 1 else 0) = min ((f x).countP p) 1 := by
        split
        next hx =>
          have hpos : 0 < (f x).countP p := List.countP_pos_iff.mpr (List.any_eq_true.mp hx)
          omega
        next hx =>
          have hzero : (f x).countP p = 0 := by
            rw [List.countP_eq_zero]
            exact fun y hy hp => hx (List.any_eq_true.mpr ⟨y, hy, hp⟩)
          omega
      rw [List.flatMap_cons, List.countP_append, List.countP_cons, hany, List.forall_mem_cons,
        ← hiff]
      omega

/-- Where the process ids of a name keep it, they are listed as often as the name exactly if no
snapshot lists it twice. -/
theorem listed_eq_named_iff (hkept : ∀ l ∈ listings s fromMs toMs,
    shownAs s fromMs toMs key l.2.pid = hasName key l.2.name) :
    listed s fromMs toMs key = named s fromMs toMs key ↔
      ∀ p ∈ snapshots s fromMs toMs, (p.top.countP fun e => hasName key e.name) ≤ 1 := by
  have hlisted : listed s fromMs toMs key = ((snapshots s fromMs toMs).flatMap
      ProcPoint.top).countP fun e => hasName key e.name := by
    have htop : (listings s fromMs toMs).map Prod.snd =
        (snapshots s fromMs toMs).flatMap ProcPoint.top := by
      rw [listings, List.map_flatMap]
      simp only [List.map_map, Function.comp_def, List.map_id']
    rw [listed, ← htop, List.countP_map]
    refine List.countP_congr fun l hl => ?_
    simp only [Function.comp_apply, hkept l hl]
  rw [hlisted, named]
  exact (countP_any_le ProcPoint.top _ _).2

end Presence

/-- A range of a session. -/
structure Range where
  session : SessionData
  fromMs : UInt64
  toMs : UInt64

namespace Range

variable (x : Range)

def processes : ProcessAnalysis := processAnalysis x.session x.fromMs x.toMs

def listed (key : String) : Nat := Compare.listed x.session x.fromMs x.toMs key

def named (key : String) : Nat := Compare.named x.session x.fromMs x.toMs key

def ticks : Nat := (snapshots x.session x.fromMs x.toMs).length

end Range

/-- A name that has a row: it is listed on a side, and it is not outranked. -/
def Reported (a b : Range) (key : String) : Prop :=
  (0 < a.listed key ∨ 0 < b.listed key) ∧ ¬Outranked a.processes b.processes key

/-- What holds of all rows holds of the listings of the reported names. -/
theorem forall_rows_iff (a b : Range) (p : ProcessDifference → Prop)
    (q : String → Prop) (h : ∀ key, p (processDifference a.processes b.processes key) ↔ q key) :
    (∀ r ∈ (processComparison a.processes b.processes).rows, p r) ↔
      ∀ key, Reported a b key → q key := by
  have hkey : ∀ key, key ∈ processKeys a.processes b.processes ↔
      0 < a.listed key ∨ 0 < b.listed key := by
    intro key
    rw [mem_processKeys]
    exact or_congr (presence_eq a.session a.fromMs a.toMs key).2.2
      (presence_eq b.session b.fromMs b.toMs key).2.2
  constructor
  · rintro hrows key ⟨hlisted, hrank⟩
    exact (h key).mp (hrows _ (mem_rows.mpr ⟨key, (hkey key).mpr hlisted, hrank, rfl⟩))
  · intro hall r hr
    obtain ⟨key, hmem, hrank, rfl⟩ := mem_rows.mp hr
    exact (h key).mpr (hall key ⟨(hkey key).mp hmem, hrank⟩)

/-- Presence is bounded by the snapshots, and counts them, exactly if the process ids of each
reported name are listed as seldom, and as often, as that. -/
theorem presence_bounded_iff (a b : Range) :
    ((∀ r ∈ (processComparison a.processes b.processes).rows,
        r.aPresence ≤ r.aTicks ∧ r.bPresence ≤ r.bTicks) ↔
      ∀ key, Reported a b key → a.listed key ≤ a.ticks ∧ b.listed key ≤ b.ticks) ∧
    ((∀ r ∈ (processComparison a.processes b.processes).rows,
        r.aPresence = a.named r.identity ∧ r.bPresence = b.named r.identity) ↔
      ∀ key, Reported a b key → a.listed key = a.named key ∧ b.listed key = b.named key) := by
  have ha := fun key => presence_eq a.session a.fromMs a.toMs key
  have hb := fun key => presence_eq b.session b.fromMs b.toMs key
  constructor
  · refine forall_rows_iff a b _ _ fun key => ?_
    rw [processDifference]
    dsimp only
    rw [Range.processes, Range.processes, (ha key).1, (ha key).2.1, (hb key).1, (hb key).2.1]
    rfl
  · refine forall_rows_iff a b _ _ fun key => ?_
    rw [processDifference]
    dsimp only
    rw [Range.processes, Range.processes, (ha key).1, (hb key).1]
    rfl

/-- A snapshot with two processes of a browser. -/
def browser : Range where
  session := { (default : SessionData) with
    procs := [{ (default : ProcPoint) with
      t := 0.0
      top := [{ (default : ProcEntry) with pid := 1, name := "chrome.exe" },
        { (default : ProcEntry) with pid := 2, name := "Chrome.exe" }] }] }
  fromMs := 0
  toMs := 0

/-- The browser is present twice in a single snapshot. -/
theorem browser_present_twice :
    ¬∀ r ∈ (processComparison browser.processes browser.processes).rows,
      r.aPresence ≤ r.aTicks ∧ r.bPresence ≤ r.bTicks := by
  decide +kernel

end PowerForensics.Compare
