import PowerForensics.Collectors.CounterLines
import PowerForensics.Collectors.Counters

/-! # Storage collector

Every instance of the disk object that at least one counter can be added for is read. A rebuild
that fails leaves no trace.

A watch over the samples reports sustained activity: once for each unbroken block of busy samples
that is long enough, whatever samples without the counter lie in between.
-/

namespace PowerForensics.Collectors

/-- The counters of a disk, in the order in which their handles are kept. -/
def diskCounters : List String :=
  ["% Disk Time", "% Idle Time", "Avg. Disk Queue Length", "Current Disk Queue Length",
    "Disk Reads/sec", "Disk Writes/sec", "Disk Read Bytes/sec", "Disk Write Bytes/sec",
    "Avg. Disk sec/Read", "Avg. Disk sec/Write"]

structure DiskCounter where
  instanceName : String
  isTotal : Bool
  handles : List Nat

def diskHandles (b : Build) (inst : String) : List Nat :=
  diskCounters.map fun counter => b.add ("\\PhysicalDisk(" ++ inst ++ ")\\" ++ counter)

def storageCounters : CounterKind (List DiskCounter) where
  rebuildEvery := 60
  counters b := (b.instances "PhysicalDisk").filterMap fun inst =>
    let handles := diskHandles b inst
    if handles.any (· ≠ 0) then
      some ⟨inst, inst.toList.map Char.toLower = "_total".toList, handles⟩
    else none
  empty := []
  isEmpty c := c.isEmpty
  noCounters := "no PhysicalDisk counters could be added"

structure StorageCollector where
  clocked : Clocked (List DiskCounter)

namespace StorageCollector

def new : StorageCollector := ⟨.new storageCounters⟩

def read (s : StorageCollector) (calls : Surroundings) :
    Except String (Rates (List DiskCounter)) × StorageCollector :=
  let (found, clocked) := readCounters storageCounters s.clocked calls
  (found.rates, ⟨clocked⟩)

end StorageCollector

/-! ## Sustained activity -/

structure ActivityWatch where
  thresholdPct : Binary64
  needed : UInt32
  /-- The busy samples since the last quiet one; the count wraps around. -/
  count : UInt32
  firing : Bool

/-- The text of the event. -/
def sustainedActivity (thresholdPct busyPct : Binary64) (count : UInt32) : String :=
  s!"sustained disk activity {String.ofList (busyPct.fixed 1)}% over {count} samples " ++
    s!"(>{String.ofList (thresholdPct.fixed 0)}% threshold) — likely blocking deep idle"

namespace ActivityWatch

def new (thresholdPct : Binary64) (needed : UInt32) : ActivityWatch :=
  ⟨thresholdPct, max needed 1, 0, false⟩

def update (w : ActivityWatch) (busyPct : Binary64) : Option String × ActivityWatch :=
  if busyPct > w.thresholdPct then
    let w := { w with count := w.count + 1 }
    if !w.firing && decide (w.count ≥ w.needed) then
      (some (sustainedActivity w.thresholdPct busyPct w.count), { w with firing := true })
    else (none, w)
  else (none, { w with count := 0, firing := false })

/-- The busy time of the disk that stands for the sum of all. -/
def totalBusy (sample : StorageSample) : Option Binary64 :=
  (sample.disks.find? DiskStats.isTotal).bind DiskStats.diskTime

/-- A missing counter is neither busy nor quiet. -/
def observeWatch (w : ActivityWatch) (sample : StorageSample) : Option String × ActivityWatch :=
  match totalBusy sample with
  | some busy => w.update busy
  | none => (none, w)

/-- Observe a sample after others that have had their events. -/
def observe (st : List String × ActivityWatch) (sample : StorageSample) :
    List String × ActivityWatch :=
  (st.1 ++ (st.2.observeWatch sample).1.toList, (st.2.observeWatch sample).2)

/-- The events of a run of samples, and the watch after it. -/
def run (w : ActivityWatch) (samples : List StorageSample) : List String × ActivityWatch :=
  samples.foldl observe ([], w)

/-! ### Blocks of busy samples -/

/-- A sample that is not above the threshold ends a block. -/
def quiet (thresholdPct busyPct : Binary64) : Bool := !decide (busyPct > thresholdPct)

/-- The length of a block that is reported. -/
def enough (needed : UInt32) : Nat := (max needed 1).toNat

/-- The sample of a block that is reported: the one that makes it long enough. -/
def reported (needed : UInt32) (block : List Binary64) : Option Binary64 :=
  block[enough needed - 1]?

/-- The watch after the samples of a block that has not ended. -/
structure Inside (thresholdPct : Binary64) (needed : UInt32) (block : List Binary64)
    (w : ActivityWatch) : Prop where
  threshold : w.thresholdPct = thresholdPct
  long : w.needed = max needed 1
  count : w.count.toNat = block.length % 2 ^ 32
  firing : w.firing = decide (enough needed ≤ block.length)

section Blocks

variable {thresholdPct : Binary64} {needed : UInt32} {block : List Binary64} {w : ActivityWatch}

theorem enough_pos (needed : UInt32) : 0 < enough needed := by
  have hone : (1 : UInt32) ≤ max needed 1 := by
    rw [UInt32.max_def]
    split
    · exact UInt32.le_refl 1
    · exact UInt32.le_of_lt (UInt32.not_le.mp ‹_›)
  exact UInt32.le_iff_toNat_le.mp hone

theorem enough_lt (needed : UInt32) : enough needed < 2 ^ 32 := (max needed 1).toNat_lt

theorem inside_new (thresholdPct : Binary64) (needed : UInt32) :
    Inside thresholdPct needed [] (.new thresholdPct needed) where
  threshold := rfl
  long := rfl
  count := rfl
  firing := by
    rw [List.length_nil, decide_eq_false (Nat.not_le.mpr (enough_pos needed))]
    rfl

theorem Inside.of_quiet (h : Inside thresholdPct needed block w) {busyPct : Binary64}
    (hquiet : quiet thresholdPct busyPct = true) :
    (w.update busyPct).1 = none ∧ Inside thresholdPct needed [] (w.update busyPct).2 := by
  have hle : ¬ busyPct > w.thresholdPct := by
    rw [h.threshold]
    simpa [quiet] using hquiet
  rw [update, if_neg hle]
  exact ⟨rfl, h.threshold, h.long, rfl, (inside_new thresholdPct needed).firing⟩

/-- A busy sample is reported if it is the one that makes the block long enough. -/
theorem Inside.of_busy (h : Inside thresholdPct needed block w) {busyPct : Binary64}
    (hbusy : quiet thresholdPct busyPct = false) :
    (w.update busyPct).1 = (if block.length + 1 = enough needed then
        some (sustainedActivity thresholdPct busyPct (max needed 1)) else none) ∧
      Inside thresholdPct needed (block ++ [busyPct]) (w.update busyPct).2 := by
  obtain ⟨t, n, count, firing⟩ := w
  obtain ⟨rfl, rfl, hcount, rfl⟩ := h
  have hgt : busyPct > t := by simpa [quiet] using hbusy
  have hlength : (block ++ [busyPct]).length = block.length + 1 := by simp
  have hnext : (count + 1).toNat = (block ++ [busyPct]).length % 2 ^ 32 := by
    rw [UInt32.toNat_add, hcount, UInt32.toNat_one, Nat.mod_add_mod, hlength]
  have hlt := enough_lt needed
  rw [update, if_pos hgt]
  by_cases hlong : enough needed ≤ block.length
  · -- the block has been reported, and the count may wrap around from now on
    have hfirst : block.length + 1 ≠ enough needed := by omega
    have hkept : enough needed ≤ block.length + 1 := by omega
    simp only [hlong, hfirst, decide_true, Bool.not_true, Bool.false_and, Bool.false_eq_true,
      if_false]
    exact ⟨trivial, rfl, rfl, hnext, by rw [hlength, decide_eq_true hkept]⟩
  · have hsmall : (count + 1).toNat = block.length + 1 := by
      rw [hnext, hlength, Nat.mod_eq_of_lt (by omega)]
    by_cases hnow : block.length + 1 = enough needed
    · have heq : count + 1 = max needed 1 := UInt32.toNat_inj.mp (hsmall.trans hnow)
      simp only [hlong, hnow, heq, decide_false, Bool.not_false, Bool.true_and, ge_iff_le,
        UInt32.le_refl, decide_true, if_true]
      exact ⟨trivial, rfl, rfl, heq ▸ hnext, by rw [hlength, hnow, decide_eq_true (Nat.le_refl _)]⟩
    · have hnot : ¬ count + 1 ≥ max needed 1 := by
        rw [ge_iff_le, UInt32.le_iff_toNat_le, hsmall]
        change ¬ enough needed ≤ block.length + 1
        omega
      have hstill : ¬ enough needed ≤ block.length + 1 := by omega
      simp only [hlong, hnow, hnot, decide_false, Bool.and_false, Bool.false_eq_true, if_false]
      exact ⟨trivial, rfl, rfl, hnext, by rw [hlength, decide_eq_false hstill]⟩

/-- A block has its reported sample once it is long enough. -/
theorem reported_concat (needed : UInt32) (block : List Binary64) (busyPct : Binary64) :
    (reported needed (block ++ [busyPct])).toList = (reported needed block).toList ++
      if block.length + 1 = enough needed then [busyPct] else [] := by
  have hpos := enough_pos needed
  unfold reported
  by_cases hnow : block.length + 1 = enough needed
  · have hend : enough needed - 1 = block.length := by omega
    rw [if_pos hnow, hend, List.getElem?_eq_none (Nat.le_refl _), List.getElem?_concat_length]
    rfl
  · rw [if_neg hnow, List.append_nil]
    rcases Nat.lt_or_ge (enough needed - 1) block.length with hin | hout
    · rw [List.getElem?_append_left hin]
    · rw [List.getElem?_eq_none hout, List.getElem?_eq_none (by
        rw [List.length_append, List.length_singleton]
        omega)]

end Blocks

theorem foldl_observe (events : List String) (w : ActivityWatch) (samples : List StorageSample) :
    samples.foldl observe (events, w) = (events ++ (run w samples).1, (run w samples).2) := by
  induction samples generalizing events w with
  | nil => simp [run]
  | cons sample samples ih =>
      rw [List.foldl_cons, run, List.foldl_cons, observe, ih, observe, ih]
      simp only [List.nil_append, List.append_assoc]

theorem run_cons (w : ActivityWatch) (sample : StorageSample) (samples : List StorageSample) :
    (run w (sample :: samples)).1 = (w.observeWatch sample).1.toList ++
      (run (w.observeWatch sample).2 samples).1 := by
  rw [run, List.foldl_cons, observe, foldl_observe]
  rfl

/-- Inside of a block that may have been reported, a run reports the rest of what there is to
report of the block and of the blocks after it. -/
theorem Inside.run {thresholdPct : Binary64} {needed : UInt32} {block : List Binary64}
    {w : ActivityWatch} (h : Inside thresholdPct needed block w) (samples : List StorageSample) :
    let text := fun busyPct => sustainedActivity thresholdPct busyPct (max needed 1)
    (reported needed block).toList.map text ++ (run w samples).1 =
      ((List.splitOnPPrepend (ActivityWatch.quiet thresholdPct) (samples.filterMap totalBusy)
        block.reverse).filterMap (reported needed)).map text := by
  intro text
  induction samples generalizing block w with
  | nil =>
      rw [List.filterMap_nil, List.splitOnPPrepend_nil, List.reverse_reverse]
      cases hreported : reported needed block <;> simp [hreported, ActivityWatch.run]
  | cons sample samples ih =>
      rw [run_cons]
      cases hbusy : totalBusy sample with
      | none =>
          -- the counter is missing, and the block goes on
          have hkeep : w.observeWatch sample = (none, w) := by rw [observeWatch, hbusy]
          rw [hkeep, List.filterMap_cons_none hbusy, Option.toList_none, List.nil_append]
          exact ih h
      | some busyPct =>
          have hupdate : w.observeWatch sample = w.update busyPct := by rw [observeWatch, hbusy]
          rw [hupdate, List.filterMap_cons_some hbusy]
          cases hquiet : ActivityWatch.quiet thresholdPct busyPct with
          | true =>
              obtain ⟨hnone, hinside⟩ := h.of_quiet hquiet
              have hfirst : reported needed [] = none := rfl
              have hrest := ih hinside
              rw [hfirst, Option.toList_none, List.map_nil, List.nil_append,
                List.reverse_nil] at hrest
              rw [hnone, Option.toList_none, List.nil_append, hrest,
                List.splitOnPPrepend_cons_pos hquiet, List.reverse_reverse, List.filterMap_cons,
                List.splitOnPPrepend_nil_right]
              cases reported needed block <;> simp
          | false =>
              obtain ⟨hevent, hinside⟩ := h.of_busy hquiet
              rw [List.splitOnPPrepend_cons_neg hquiet, ← List.reverse_concat, ← ih hinside,
                reported_concat, hevent]
              by_cases hnow : block.length + 1 = enough needed <;> simp [hnow, text]

/-- The events of a run are those of its blocks: each unbroken block of busy samples that is long
enough is reported once, when it is, and nothing else is. Samples without the counter break no
block, and blocks of any length are counted right. -/
theorem reports_each_block (thresholdPct : Binary64) (needed : UInt32)
    (samples : List StorageSample) :
    (run (.new thresholdPct needed) samples).1 =
      (((samples.filterMap totalBusy).splitOnP (quiet thresholdPct)).filterMap
        (reported needed)).map
          fun busyPct => sustainedActivity thresholdPct busyPct (max needed 1) := by
  have hrun := (inside_new thresholdPct needed).run samples
  have hfirst : reported needed [] = none := rfl
  simp only [hfirst, Option.toList_none, List.map_nil, List.nil_append, List.reverse_nil,
    List.splitOnPPrepend_nil_right] at hrun
  exact hrun

end ActivityWatch

end PowerForensics.Collectors
