import PowerForensics.Collectors.CounterLines
import PowerForensics.Core.Stats
import PowerForensics.System.Neighbours

/-! # Disk throughput of a session

The monitor sums up the bytes that the disks read and write. The time since the storage sample
before goes to the covered or to the unknown seconds, if the sample has the disk that stands for
the sum of all. If it does not, the time goes nowhere, and the next sample counts from there.
-/

namespace PowerForensics.Monitor

open Stats Collectors Neighbours

/-! ## The accumulators -/

section Model

variable {α : Type} [Scalar α]

/-- A rate summed up over a sampled timeline. -/
structure ThroughputAccum (α : Type) where
  mb : α
  coveredSecs : α
  unknownSecs : α
  /-- Pairs that contributed a usable rate. -/
  samples : Nat
  discontinuities : Nat

instance : Inhabited (ThroughputAccum α) := ⟨⟨0.0, 0.0, 0.0, 0, 0⟩⟩

namespace ThroughputAccum

def push (acc : ThroughputAccum α) (dt : Option α) (rateBps : Option α) (maxGap : α) :
    ThroughputAccum α :=
  match dt with
  | none => acc
  | some dt =>
      if dt < 0.0 then acc
      else if dt > maxGap then
        { acc with
          unknownSecs := acc.unknownSecs + dt
          discontinuities := acc.discontinuities + 1 }
      else
        match rateBps with
        | some r =>
            { acc with
              mb := acc.mb + r * dt / (1024.0 * 1024.0)
              coveredSecs := acc.coveredSecs + dt
              samples := acc.samples + 1 }
        | none => { acc with unknownSecs := acc.unknownSecs + dt }

end ThroughputAccum

/-- What a storage sample says about the sum of all disks, where it lists it. -/
structure StorageReading (α : Type) where
  monoSecs : α
  total : Option (Option α × Option α)

/-- The accumulators of the monitor, and when the last storage sample was taken. -/
structure DiskThroughput (α : Type) where
  prevDiskMono : Option α
  diskRead : ThroughputAccum α
  diskWrite : ThroughputAccum α

instance : Inhabited (DiskThroughput α) := ⟨⟨none, default, default⟩⟩

/-- A failed read leaves everything as it is. -/
def DiskThroughput.handleStorage (st : DiskThroughput α) (maxGap : α)
    (res : Except String (StorageReading α)) : DiskThroughput α :=
  match res with
  | .error _ => st
  | .ok ss =>
      let st :=
        match ss.total with
        | some (readBps, writeBps) =>
            let dt := st.prevDiskMono.map fun prev => max (ss.monoSecs - prev) 0.0
            { st with
              diskRead := st.diskRead.push dt readBps maxGap
              diskWrite := st.diskWrite.push dt writeBps maxGap }
        | none => st
      { st with prevDiskMono := some ss.monoSecs }

def DiskThroughput.run (maxGap : α) (results : List (Except String (StorageReading α))) :
    DiskThroughput α :=
  results.foldl (fun st res => st.handleStorage maxGap res) default

/-- The samples that were read. -/
def readings (results : List (Except String (StorageReading α))) : List (StorageReading α) :=
  results.filterMap Except.toOption

end Model

/-- The reading of a sample, in seconds of the monotonic clock. -/
def storageReading (stamp : ClockStamp) (ss : StorageSample) : StorageReading Binary64 :=
  ⟨Session.seconds stamp.monoMillis,
    (ss.disks.find? DiskStats.isTotal).map fun t => (t.readBps, t.writeBps)⟩

/-! ## What the accumulators account for -/

section Exact

/-- The time that an accumulator accounts for. -/
def ThroughputAccum.span (acc : ThroughputAccum ℚ) : ℚ := acc.coveredSecs + acc.unknownSecs

theorem span_push (acc : ThroughputAccum ℚ) (dt : Option ℚ) (rateBps : Option ℚ) (maxGap : ℚ) :
    (acc.push dt rateBps maxGap).span = acc.span + max (dt.getD 0) 0 := by
  have hzero : (0.0 : ℚ) = 0 := by norm_num
  unfold ThroughputAccum.push ThroughputAccum.span
  cases dt with
  | none => simp
  | some dt =>
      dsimp only
      rw [hzero, Option.getD_some]
      split
      next hneg => rw [max_eq_right hneg.le, add_zero]
      next hforward =>
        rw [max_eq_left (not_lt.mp hforward)]
        split
        · exact (add_assoc _ _ _).symm
        · cases rateBps with
          | some r => exact add_right_comm _ _ _
          | none => exact (add_assoc _ _ _).symm

/-- The time of a step, if the sample at its end lists the sum of all disks. -/
def accounted (step : StorageReading ℚ × StorageReading ℚ) : ℚ :=
  if step.2.total.isSome then max (step.2.monoSecs - step.1.monoSecs) 0 else 0

def sumSteps (f : StorageReading ℚ × StorageReading ℚ → ℚ)
    (steps : List (StorageReading ℚ × StorageReading ℚ)) : ℚ :=
  steps.foldr (fun step sum => f step + sum) 0

theorem sumSteps_concat (f : StorageReading ℚ × StorageReading ℚ → ℚ)
    (steps : List (StorageReading ℚ × StorageReading ℚ))
    (step : StorageReading ℚ × StorageReading ℚ) :
    sumSteps f (steps ++ [step]) = sumSteps f steps + f step := by
  induction steps with
  | nil => exact add_comm _ _
  | cons first steps ih =>
      rw [List.cons_append, sumSteps, List.foldr_cons, ← sumSteps, ih, sumSteps, sumSteps,
        List.foldr_cons, add_assoc]

/-- What the monitor holds after some samples. -/
structure Accounts (rs : List (StorageReading ℚ)) (st : DiskThroughput ℚ) : Prop where
  prev : st.prevDiskMono = rs.getLast?.map StorageReading.monoSecs
  read : st.diskRead.span = sumSteps accounted (neighbours rs)
  write : st.diskWrite.span = sumSteps accounted (neighbours rs)

/-- A sample without the sum of all disks accounts for no time. -/
theorem sumSteps_skipped {rs : List (StorageReading ℚ)} {r : StorageReading ℚ}
    (hnone : r.total = none) :
    sumSteps accounted (neighbours (rs ++ [r])) = sumSteps accounted (neighbours rs) := by
  cases rs using List.reverseRecOn with
  | nil => rfl
  | append_singleton rs q =>
      rw [neighbours_concat, sumSteps_concat, accounted, hnone]
      exact add_zero _

theorem Accounts.ok {rs : List (StorageReading ℚ)} {st : DiskThroughput ℚ}
    (h : Accounts rs st) (maxGap : ℚ) (r : StorageReading ℚ) :
    Accounts (rs ++ [r]) (st.handleStorage maxGap (.ok r)) := by
  have hzero : (0.0 : ℚ) = 0 := by norm_num
  have hspan : ∀ (acc : ThroughputAccum ℚ) (rate : Option ℚ), r.total.isSome = true →
      acc.span = sumSteps accounted (neighbours rs) →
      (acc.push (st.prevDiskMono.map fun prev => max (r.monoSecs - prev) 0.0) rate maxGap).span =
        sumSteps accounted (neighbours (rs ++ [r])) := by
    intro acc rate htotal hacc
    rw [span_push, hacc, h.prev]
    cases rs using List.reverseRecOn with
    | nil =>
        simp [neighbours]
    | append_singleton rs q =>
        rw [neighbours_concat, sumSteps_concat, accounted, if_pos htotal, List.getLast?_concat,
          Option.map_some, Option.map_some, Option.getD_some, hzero, max_assoc, max_self]
  have hlast : (rs ++ [r]).getLast?.map StorageReading.monoSecs = some r.monoSecs := by
    rw [List.getLast?_concat, Option.map_some]
  cases htotal : r.total with
  | some rates =>
      have hsome : r.total.isSome = true := by rw [htotal]; rfl
      simp only [DiskThroughput.handleStorage, htotal]
      exact ⟨hlast.symm, hspan _ _ hsome h.read, hspan _ _ hsome h.write⟩
  | none =>
      simp only [DiskThroughput.handleStorage, htotal]
      have hskip := @sumSteps_skipped rs r htotal
      exact ⟨hlast.symm, h.read.trans hskip.symm, h.write.trans hskip.symm⟩

theorem accounts_run (maxGap : ℚ) (results : List (Except String (StorageReading ℚ))) :
    Accounts (readings results) (.run maxGap results) := by
  induction results using List.reverseRecOn with
  | nil =>
      have hspan : (default : ThroughputAccum ℚ).span = 0 := by
        simp only [ThroughputAccum.span, default]
        norm_num
      exact ⟨rfl, hspan, hspan⟩
  | append_singleton results res ih =>
      have hrun : DiskThroughput.run maxGap (results ++ [res]) =
          (DiskThroughput.run maxGap results).handleStorage maxGap res := by
        rw [DiskThroughput.run, List.foldl_append]
        rfl
      rw [hrun, readings, List.filterMap_append, ← readings]
      cases res with
      | error e =>
          rw [List.filterMap_cons_none rfl, List.filterMap_nil, List.append_nil]
          exact ih
      | ok r => exact ih.ok maxGap r

/-! ## The time between the first sample and the last -/

def elapsed (rs : List (StorageReading ℚ)) : ℚ :=
  match rs.head?, rs.getLast? with
  | some first, some last => last.monoSecs - first.monoSecs
  | _, _ => 0

/-- The monotonic clock does not go back. -/
def Forward (rs : List (StorageReading ℚ)) : Prop :=
  ∀ step ∈ neighbours rs, step.1.monoSecs ≤ step.2.monoSecs

/-- The time of a step that goes nowhere. -/
def lost (step : StorageReading ℚ × StorageReading ℚ) : ℚ :=
  if step.2.total.isSome then 0 else step.2.monoSecs - step.1.monoSecs

theorem elapsed_eq {rs : List (StorageReading ℚ)} (hforward : Forward rs) :
    elapsed rs = sumSteps accounted (neighbours rs) + sumSteps lost (neighbours rs) := by
  induction rs using List.reverseRecOn with
  | nil => simp [elapsed, neighbours, sumSteps]
  | append_singleton rs r ih =>
      cases rs using List.reverseRecOn with
      | nil => simp [elapsed, neighbours, sumSteps]
      | append_singleton rs q =>
          have hq : Forward (rs ++ [q]) := by
            intro step hstep
            apply hforward step
            rw [neighbours_concat]
            exact List.mem_append_left _ hstep
          have hstep : q.monoSecs ≤ r.monoSecs := by
            apply hforward (q, r)
            rw [neighbours_concat]
            exact List.mem_append_right _ List.mem_cons_self
          have hlast : accounted (q, r) + lost (q, r) = r.monoSecs - q.monoSecs := by
            rw [accounted, lost]
            split
            · rw [max_eq_left (sub_nonneg.mpr hstep), add_zero]
            · rw [zero_add]
          have hsplit : elapsed (rs ++ [q] ++ [r]) =
              elapsed (rs ++ [q]) + (r.monoSecs - q.monoSecs) := by
            unfold elapsed
            rw [List.getLast?_concat, List.getLast?_concat, List.head?_append_of_ne_nil _ (by simp)]
            cases hhead : (rs ++ [q]).head? with
            | none => simp at hhead
            | some first =>
                dsimp only
                rw [sub_add_sub_cancel']
          rw [hsplit, ih hq, neighbours_concat, sumSteps_concat, sumSteps_concat, ← hlast]
          exact add_add_add_comm _ _ _ _

theorem sumSteps_eq_zero_iff {f : StorageReading ℚ × StorageReading ℚ → ℚ}
    {steps : List (StorageReading ℚ × StorageReading ℚ)} (hnonneg : ∀ step ∈ steps, 0 ≤ f step) :
    0 ≤ sumSteps f steps ∧ (sumSteps f steps = 0 ↔ ∀ step ∈ steps, f step = 0) := by
  induction steps with
  | nil => exact ⟨le_rfl, by simp [sumSteps]⟩
  | cons step steps ih =>
      obtain ⟨hfirst, hrest⟩ := List.forall_mem_cons.mp hnonneg
      obtain ⟨hsum, hiff⟩ := ih hrest
      have hcons : sumSteps f (step :: steps) = f step + sumSteps f steps := rfl
      rw [hcons, List.forall_mem_cons, ← hiff]
      exact ⟨add_nonneg hfirst hsum, add_eq_zero_iff_of_nonneg hfirst hsum⟩

/-- Over exact rationals, on a clock that does not go back, the accumulators account for the time
between the first storage sample and the last exactly if no time passes before a sample that does
not list the sum of all disks. -/
theorem throughput_accounts_iff (maxGap : ℚ) (results : List (Except String (StorageReading ℚ)))
    (hforward : Forward (readings results)) :
    ((DiskThroughput.run maxGap results).diskRead.span = elapsed (readings results) ∧
        (DiskThroughput.run maxGap results).diskWrite.span = elapsed (readings results)) ↔
      ∀ step ∈ neighbours (readings results), step.2.total = none →
        step.1.monoSecs = step.2.monoSecs := by
  have haccounts := accounts_run maxGap results
  have hnonneg : ∀ step ∈ neighbours (readings results), 0 ≤ lost step := by
    intro step hstep
    rw [lost]
    split
    · exact le_rfl
    · exact sub_nonneg.mpr (hforward step hstep)
  have hlost : ∀ step : StorageReading ℚ × StorageReading ℚ, lost step = 0 ↔
      (step.2.total = none → step.1.monoSecs = step.2.monoSecs) := by
    intro step
    rw [lost]
    cases step.2.total with
    | some rates => simp
    | none => simp [sub_eq_zero, eq_comm]
  rw [haccounts.read, haccounts.write, and_self, elapsed_eq hforward, left_eq_add,
    (sumSteps_eq_zero_iff hnonneg).2]
  exact forall₂_congr fun step _ => hlost step

/-- Two samples that both list it. -/
def twoReadings : List (Except String (StorageReading ℚ)) :=
  [.ok ⟨0, some (some 100, none)⟩, .ok ⟨2, some (none, some 50)⟩]

theorem throughput_accounts_iff_two :
    (DiskThroughput.run 5 twoReadings).diskRead.span = elapsed (readings twoReadings) ∧
      (DiskThroughput.run 5 twoReadings).diskWrite.span = elapsed (readings twoReadings) := by
  apply (throughput_accounts_iff 5 twoReadings ?_).mpr
  · intro step hstep
    obtain rfl := List.mem_singleton.mp hstep
    nofun
  · intro step hstep
    obtain rfl := List.mem_singleton.mp hstep
    norm_num

/-- The second between a sample and one that does not list the sum of all disks goes nowhere. -/
theorem second_lost :
    let sample : Option (Option Binary64 × Option Binary64) := some (some 0.0, some 0.0)
    let st := DiskThroughput.run 5.0 [.ok ⟨0.0, sample⟩, .ok ⟨1.0, none⟩, .ok ⟨2.0, sample⟩]
    st.diskRead.coveredSecs + st.diskRead.unknownSecs = (1.0 : Binary64) ∧
      (1.0 : Binary64) ≠ 2.0 - 0.0 := by
  decide +kernel

end Exact

end PowerForensics.Monitor
