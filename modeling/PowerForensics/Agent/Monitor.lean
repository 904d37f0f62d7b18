import Mathlib.Tactic.NormNum
import PowerForensics.Binary64.Exact
import PowerForensics.Core.StatsSteps

/-! # The live energy accumulator

The monitor folds every battery sample into an accumulator that remembers only the
previous sample. Run over a series from its default state, it has in every field what
the batch integrator computes from the series, and in its tallies the number of
boundaries of each kind.

The two loops differ in one operation: on a forced boundary the accumulator adds zero
where the batch loop adds nothing. They agree on a number type where adding zero
changes none of the sums that occur.
-/

namespace PowerForensics.Monitor

open Stats

variable {α : Type} [Scalar α]

structure EnergyStream (α : Type) where
  discharge : SegmentEnergy α
  charge : SegmentEnergy α
  /-- Counts by the index of the kind. -/
  discKinds : List Nat
  last : Option (α × α × Option α × Option α)

instance : Inhabited (EnergyStream α) := ⟨⟨default, default, [0, 0, 0, 0], none⟩⟩

/-- A boundary as it is added to one of the two sums. -/
def addBoundary (seg : SegmentEnergy α) (unknown unobserved : α) : SegmentEnergy α :=
  { seg with
    unknownSecs := seg.unknownSecs + unknown
    discontinuities := seg.discontinuities + 1
    unobservedSecs := seg.unobservedSecs + unobserved }

/-- A step between two samples. -/
def EnergyStream.pair (seg : SegmentEnergy α) (dt : α) (a b : Option α) (maxGap : α) :
    SegmentEnergy α :=
  match a, b with
  | some a, some b =>
      if dt ≤ maxGap then
        { seg with
          energyWh := seg.energyWh + 0.5 * (a + b) * dt / 3600.0
          coveredSecs := seg.coveredSecs + dt }
      else { seg with unknownSecs := seg.unknownSecs + dt }
  | _, _ => { seg with unknownSecs := seg.unknownSecs + dt }

/-- The accumulator adds a pair as the batch loop does. -/
theorem pair_eq_addPair (seg : SegmentEnergy α) (dt : α) (a b : Option α) (maxGap : α) :
    EnergyStream.pair seg dt a b maxGap = seg.addPair dt a b maxGap := by
  unfold EnergyStream.pair SegmentEnergy.addPair
  cases a <;> cases b <;> rfl

def EnergyStream.push (stream : EnergyStream α) (mono wall : α) (discharge charge : Option α)
    (maxGap maxSkew : α) : EnergyStream α :=
  let stepped :=
    match stream.last with
    | none => stream
    | some (pm, pw, pd, pc) =>
        let monoDt := mono - pm
        let wallDt := if pw > 0.0 ∧ wall > 0.0 then some (wall - pw) else none
        match classifyStep monoDt wallDt maxGap maxSkew with
        | some kind =>
            let unknown := if monoDt > 0.0 then monoDt else 0.0
            let unobserved := max ((wallDt.map fun w => max monoDt w).getD monoDt) 0.0
            { stream with
              discharge := addBoundary stream.discharge unknown unobserved
              charge := addBoundary stream.charge unknown unobserved
              discKinds := stream.discKinds.modify kind.index (· + 1) }
        | none =>
            { stream with
              discharge := pair stream.discharge monoDt pd discharge maxGap
              charge := pair stream.charge monoDt pc charge maxGap }
  { stepped with last := some (mono, wall, discharge, charge) }

/-- One battery sample with both clocks in seconds. -/
structure Sample (α : Type) where
  mono : α
  wall : α
  discharge : Option α
  charge : Option α

/-- The accumulator after a run of samples. -/
def EnergyStream.run (maxGap maxSkew : α) (samples : List (Sample α)) : EnergyStream α :=
  samples.foldl (fun stream s => stream.push s.mono s.wall s.discharge s.charge maxGap maxSkew)
    default

/-! ## Number types with clean sums -/

/-- A property of sums, kept by adding anything, under which adding zero changes
nothing. -/
class CleanScalar (α : Type) [Scalar α] where
  Clean : α → Prop
  clean_zero : Clean 0.0
  clean_add : ∀ {x : α} (y : α), Clean x → Clean (x + y)
  add_zero : ∀ {x : α}, Clean x → x + 0.0 = x

instance : CleanScalar ℚ where
  Clean _ := True
  clean_zero := trivial
  clean_add _ _ := trivial
  add_zero {x} _ := by
    have hzero : (0.0 : ℚ) = 0 := by norm_num
    change x + (0.0 : ℚ) = x
    rw [hzero, Rat.add_zero]

/-- No sum that starts from zero is the negative zero. -/
instance : CleanScalar Binary64 where
  Clean := Binary64.Clean
  clean_zero := Binary64.clean_zero
  clean_add := Binary64.clean_add
  add_zero := Binary64.add_zero_of_clean

section Refinement

variable [CleanScalar α]

open CleanScalar (Clean)

theorem clean_addPair {seg : SegmentEnergy α} (hclean : Clean seg.unknownSecs) (dt : α)
    (a b : Option α) (gap : α) : Clean (seg.addPair dt a b gap).unknownSecs := by
  unfold SegmentEnergy.addPair
  split
  · split
    · exact hclean
    · exact CleanScalar.clean_add dt hclean
  · exact CleanScalar.clean_add dt hclean

theorem clean_extend {seg : SegmentEnergy α} (hclean : Clean seg.unknownSecs) (monoDt : α)
    (wallDt : Option α) (a b : Option α) (gap skew : α) :
    Clean (seg.extend monoDt wallDt a b gap skew).unknownSecs := by
  unfold SegmentEnergy.extend
  split
  · dsimp only
    split
    · exact CleanScalar.clean_add monoDt hclean
    · exact hclean
  · exact clean_addPair hclean monoDt a b gap

/-- On a forced boundary the accumulator adds zero where the batch loop adds nothing. -/
theorem addBoundary_eq_extend {seg : SegmentEnergy α} (hclean : Clean seg.unknownSecs)
    {monoDt : α} {wallDt : Option α} (a b : Option α) {gap skew : α} {kind : DiscontinuityKind}
    (hkind : classifyStep monoDt wallDt gap skew = some kind) :
    addBoundary seg (if monoDt > 0.0 then monoDt else 0.0) (unobserved monoDt wallDt) =
      seg.extend monoDt wallDt a b gap skew := by
  rw [SegmentEnergy.extend, hkind]
  unfold addBoundary
  by_cases hforward : monoDt > 0.0
  · simp only [hforward, if_true]
  · simp only [hforward, if_false, CleanScalar.add_zero hclean]

/-- A push after a sample extends both sums as the batch functions do, and counts the boundary. -/
theorem push_of_last {stream : EnergyStream α} (hdischarge : Clean stream.discharge.unknownSecs)
    (hcharge : Clean stream.charge.unknownSecs) {pm pw : α} {pd pc : Option α}
    (hlast : stream.last = some (pm, pw, pd, pc)) (mono wall : α) (discharge charge : Option α)
    (maxGap maxSkew : α) :
    stream.push mono wall discharge charge maxGap maxSkew =
      ⟨stream.discharge.extend (mono - pm) (wallStep pw wall) pd discharge maxGap maxSkew,
        stream.charge.extend (mono - pm) (wallStep pw wall) pc charge maxGap maxSkew,
        (classifyStep (mono - pm) (wallStep pw wall) maxGap maxSkew).elim stream.discKinds
          fun kind => stream.discKinds.modify kind.index (· + 1),
        some (mono, wall, discharge, charge)⟩ := by
  cases hclass : classifyStep (mono - pm) (wallStep pw wall) maxGap maxSkew with
  | some kind =>
      rw [← addBoundary_eq_extend hdischarge _ _ hclass,
        ← addBoundary_eq_extend hcharge _ _ hclass]
      simp only [EnergyStream.push, hlast]
      rw [← wallStep, hclass]
      rfl
  | none =>
      rw [SegmentEnergy.extend, SegmentEnergy.extend, hclass]
      simp only [EnergyStream.push, hlast, pair_eq_addPair]
      rw [← wallStep, hclass]
      rfl

/-- What the accumulator holds after a series, in terms of the batch functions. -/
structure Follows (maxGap maxSkew : α) (times walls : List α) (watts charges : List (Option α))
    (stream : EnergyStream α) : Prop where
  discharge : stream.discharge = integrateSegmentedClocks times walls watts maxGap maxSkew
  charge : stream.charge = integrateSegmentedClocks times walls charges maxGap maxSkew
  clean_discharge : Clean stream.discharge.unknownSecs
  clean_charge : Clean stream.charge.unknownSecs
  kinds : ∀ kind : DiscontinuityKind, stream.discKinds[kind.index]? =
    some (((discontinuities times walls maxGap maxSkew).map Discontinuity.kind).count kind)
  last : stream.last = if times = [] then none else
    some (at_ times (times.length - 1), at_ walls (times.length - 1),
      watts.getD (times.length - 1) none, charges.getD (times.length - 1) none)

theorem follows_nil (maxGap maxSkew : α) :
    Follows maxGap maxSkew [] [] [] [] (default : EnergyStream α) where
  discharge := rfl
  charge := rfl
  clean_discharge := CleanScalar.clean_zero
  clean_charge := CleanScalar.clean_zero
  kinds kind := by cases kind <;> rfl
  last := rfl

theorem index_injective {kind other : DiscontinuityKind} :
    kind.index = other.index ↔ kind = other := by
  cases kind <;> cases other <;> decide

/-- A tally that is right for some boundaries is so for one more. -/
theorem tally_append {tally : List Nat} {kinds : List DiscontinuityKind}
    (htally : ∀ kind : DiscontinuityKind, tally[kind.index]? = some (kinds.count kind))
    (found : Option DiscontinuityKind) (kind : DiscontinuityKind) :
    (found.elim tally fun k => tally.modify k.index (· + 1))[kind.index]? =
      some ((kinds ++ found.toList).count kind) := by
  cases found with
  | none =>
      rw [Option.toList_none, List.append_nil]
      exact htally kind
  | some other =>
      rw [Option.elim_some, List.getElem?_modify, htally kind, Option.toList_some,
        List.count_append]
      by_cases hkind : other = kind
      · subst hkind
        simp
      · have hindex : other.index ≠ kind.index := by rwa [ne_eq, index_injective]
        simp [hkind, hindex]

/-- One push keeps the accumulator in step with the batch functions. -/
theorem Follows.push {maxGap maxSkew : α} {times walls : List α}
    {watts charges : List (Option α)} {stream : EnergyStream α}
    (hfollows : Follows maxGap maxSkew times walls watts charges stream)
    (hwalls : walls.length = times.length) (hwatts : watts.length = times.length)
    (hcharges : charges.length = times.length) (s : Sample α) :
    Follows maxGap maxSkew (times ++ [s.mono]) (walls ++ [s.wall]) (watts ++ [s.discharge])
      (charges ++ [s.charge])
      (stream.push s.mono s.wall s.discharge s.charge maxGap maxSkew) := by
  have hlast : some (s.mono, s.wall, s.discharge, s.charge) =
      if times ++ [s.mono] = [] then none else
        some (at_ (times ++ [s.mono]) ((times ++ [s.mono]).length - 1),
          at_ (walls ++ [s.wall]) ((times ++ [s.mono]).length - 1),
          (watts ++ [s.discharge]).getD ((times ++ [s.mono]).length - 1) none,
          (charges ++ [s.charge]).getD ((times ++ [s.mono]).length - 1) none) := by
    have hend : (times ++ [s.mono]).length - 1 = times.length := by simp
    have hwall : at_ (walls ++ [s.wall]) times.length = s.wall := hwalls ▸ at_append_last s.wall
    have hdischarge : (watts ++ [s.discharge]).getD times.length none = s.discharge :=
      hwatts ▸ getD_append_last s.discharge
    have hcharge : (charges ++ [s.charge]).getD times.length none = s.charge :=
      hcharges ▸ getD_append_last s.charge
    rw [if_neg (by simp), hend, at_append_last, hwall, hdischarge, hcharge]
  cases hn : times.length with
  | zero =>
      -- The first sample is only remembered.
      obtain rfl := List.length_eq_zero_iff.mp hn
      obtain rfl := List.length_eq_zero_iff.mp hwalls
      obtain rfl := List.length_eq_zero_iff.mp hwatts
      obtain rfl := List.length_eq_zero_iff.mp hcharges
      have hnone : stream.last = none := hfollows.last
      have hpush : stream.push s.mono s.wall s.discharge s.charge maxGap maxSkew =
          { stream with last := some (s.mono, s.wall, s.discharge, s.charge) } := by
        simp only [EnergyStream.push, hnone]
      rw [hpush]
      exact ⟨hfollows.discharge, hfollows.charge, hfollows.clean_discharge,
        hfollows.clean_charge, hfollows.kinds, hlast⟩
  | succ n =>
      have hne : times ≠ [] := by
        rintro rfl
        cases hn
      have hsome : stream.last = some (at_ times n, at_ walls n, watts.getD n none,
          charges.getD n none) := by
        rw [hfollows.last, if_neg hne, hn, Nat.add_sub_cancel]
      have hdischarge := integrateSegmentedClocks_append maxGap maxSkew
        hwalls hwatts s.mono s.wall s.discharge hn
      have hcharge := integrateSegmentedClocks_append maxGap maxSkew
        hwalls hcharges s.mono s.wall s.charge hn
      have hkinds := discontinuities_append maxGap maxSkew hwalls s.mono s.wall hn
      rw [discontinuityAt_last maxGap maxSkew hwalls s.mono s.wall hn] at hkinds
      rw [← hfollows.discharge] at hdischarge
      rw [← hfollows.charge] at hcharge
      rw [push_of_last hfollows.clean_discharge hfollows.clean_charge hsome]
      constructor
      · exact hdischarge.symm
      · exact hcharge.symm
      · exact clean_extend hfollows.clean_discharge _ _ _ _ _ _
      · exact clean_extend hfollows.clean_charge _ _ _ _ _ _
      · intro kind
        rw [tally_append hfollows.kinds, hkinds, List.map_append]
        cases classifyStep (s.mono - at_ times n) (wallStep (at_ walls n) s.wall) maxGap maxSkew
          with
        | none => rfl
        | some found => rfl
      · exact hlast

/-- The accumulator follows the batch functions over every run. -/
theorem run_follows (maxGap maxSkew : α) (samples : List (Sample α)) :
    Follows maxGap maxSkew (samples.map Sample.mono) (samples.map Sample.wall)
      (samples.map Sample.discharge) (samples.map Sample.charge)
      (EnergyStream.run maxGap maxSkew samples) := by
  induction samples using List.reverseRecOn with
  | nil => exact follows_nil maxGap maxSkew
  | append_singleton samples s ih =>
      simp only [List.map_append, List.map_singleton, EnergyStream.run, List.foldl_append,
        List.foldl_cons, List.foldl_nil]
      exact ih.push (by simp) (by simp) (by simp) s

omit [CleanScalar α] in
theorem length_discKinds_push (stream : EnergyStream α) (mono wall : α)
    (discharge charge : Option α) (maxGap maxSkew : α) :
    (stream.push mono wall discharge charge maxGap maxSkew).discKinds.length =
      stream.discKinds.length := by
  unfold EnergyStream.push
  dsimp only
  split
  · rfl
  · split
    · exact List.length_modify _ _ _
    · rfl

omit [CleanScalar α] in
theorem length_discKinds_run (maxGap maxSkew : α) (samples : List (Sample α)) :
    (EnergyStream.run maxGap maxSkew samples).discKinds.length = 4 := by
  induction samples using List.reverseRecOn with
  | nil => rfl
  | append_singleton samples s ih =>
      rw [EnergyStream.run, List.foldl_append, List.foldl_cons, List.foldl_nil,
        length_discKinds_push]
      exact ih

end Refinement

/-- Over exact rationals the streaming accumulator has, after every finite sequence of
samples, the energy of both directions in every field that the batch integrator gives,
and the number of boundaries of each kind. -/
theorem energyStream_refines_integrateSegmentedClocks (maxGap maxSkew : ℚ)
    (samples : List (Sample ℚ)) :
    let stream := EnergyStream.run maxGap maxSkew samples
    let times := samples.map Sample.mono
    let walls := samples.map Sample.wall
    stream.discharge =
        integrateSegmentedClocks times walls (samples.map Sample.discharge) maxGap maxSkew ∧
      stream.charge =
        integrateSegmentedClocks times walls (samples.map Sample.charge) maxGap maxSkew ∧
      ∀ kind : DiscontinuityKind, stream.discKinds[kind.index]? =
        some (((discontinuities times walls maxGap maxSkew).map Discontinuity.kind).count
          kind) := by
  have hfollows := run_follows maxGap maxSkew samples
  exact ⟨hfollows.discharge, hfollows.charge, hfollows.kinds⟩

end PowerForensics.Monitor
