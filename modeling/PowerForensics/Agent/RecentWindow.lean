import Mathlib.Data.List.Chain
import PowerForensics.Agent.SummaryAccum
import PowerForensics.Binary64.Values

/-! # Means over a window

The runtime that the writer shows is taken from the mean discharge of the last minutes, and it is
computed from the samples that are still kept. Where the samples are spaced widely enough, no
sample that was given up is within the window, and the mean is the one over the whole session.
-/

namespace PowerForensics.Monitor

open Binary64

/-! ## Samples before a cutoff -/

section Cutoff

variable {cutoff : Binary64}

theorem foldl_sumSince_before {samples : List RecentBattery}
    (hbefore : ∀ s ∈ samples, ¬ s.monoSecs ≥ cutoff) (acc : Binary64 × Nat) :
    samples.foldl (sumSince cutoff) acc = acc := by
  induction samples generalizing acc with
  | nil => rfl
  | cons s samples ih =>
      obtain ⟨hs, hsamples⟩ := List.forall_mem_cons.mp hbefore
      rw [List.foldl_cons, sumSince, if_neg hs, ih hsamples]

/-- Samples before the cutoff change nothing. -/
theorem meanSince_append {older : List RecentBattery}
    (hbefore : ∀ s ∈ older, ¬ s.monoSecs ≥ cutoff) (newer : List RecentBattery) :
    meanSince cutoff (older ++ newer) = meanSince cutoff newer := by
  rw [meanSince, List.foldl_append, foldl_sumSince_before hbefore, meanSince]

end Cutoff

/-! ## Spaced stamps -/

/-- The monotonic stamps of the battery samples of a run. -/
def batteryStamps (ds : List Delivery) : List UInt64 :=
  ds.filterMap fun d => d.batteryRead.map fun _ => d.stamp.monoMillis

/-- Each stamp is at least a number of milliseconds after the one before. -/
def SpacedBy (ms : Nat) (stamps : List UInt64) : Prop :=
  stamps.IsChain fun a b => a.toNat + ms ≤ b.toNat

/-- A stamp with others behind it is before the last one by as many spacings. -/
theorem SpacedBy.le_last {ms : Nat} {a : UInt64} {stamps : List UInt64}
    (h : SpacedBy ms (a :: stamps)) {last : UInt64} (hlast : last ∈ (a :: stamps).getLast?) :
    a.toNat + ms * stamps.length ≤ last.toNat := by
  induction stamps generalizing a with
  | nil =>
      obtain rfl : a = last := by simpa using hlast
      exact Nat.le_refl _
  | cons b stamps ih =>
      obtain ⟨hstep, hrest⟩ := List.isChain_cons_cons.mp h
      have hfrom := ih hrest (by rwa [List.getLast?_cons_cons] at hlast)
      rw [List.length_cons, Nat.mul_succ]
      omega

/-- What was given up of a list of spaced stamps is old. -/
theorem SpacedBy.given_up {ms cap : Nat} {stamps : List UInt64} {a last : UInt64}
    (h : SpacedBy ms stamps) (ha : a ∈ stamps.take (stamps.length - cap))
    (hlast : last ∈ stamps.getLast?) : a.toNat + ms * cap ≤ last.toNat := by
  obtain ⟨front, back, hback⟩ := List.append_of_mem ha
  have hform : stamps = front ++ a :: (back ++ Shedding.newest cap stamps) := by
    have hsplit := Shedding.take_append_newest cap stamps
    rwa [hback, List.append_assoc, List.cons_append, eq_comm] at hsplit
  have hchain : SpacedBy ms (a :: (back ++ Shedding.newest cap stamps)) := by
    unfold SpacedBy at h ⊢
    rw [hform] at h
    exact (List.isChain_append.mp h).2.1
  have hlength : cap ≤ (back ++ Shedding.newest cap stamps).length := by
    rw [List.length_append, Shedding.length_newest ha]
    exact Nat.le_add_left _ _
  rw [hform, List.getLast?_append_of_ne_nil _ (List.cons_ne_nil _ _)] at hlast
  exact le_trans (Nat.add_le_add_left (Nat.mul_le_mul_left ms hlength) _) (hchain.le_last hlast)

/-! ## Seconds -/

theorem seconds_near {m : UInt64} (hm : m.toNat < 2 ^ 53) :
    Proper (Session.seconds m) ∧
      |value (Session.seconds m) - m.toNat / 1000| ≤ (2 ^ 44 : ℕ) / 2 ^ 54 := by
  have hthousand : (1000.0 : Binary64) = ofNat 1000 := by decide +kernel
  obtain ⟨hproper, hvalue⟩ := ofNat_proper hm
  obtain ⟨hproper', hvalue'⟩ := ofNat_proper (n := 1000) (by decide)
  have hlt : value (ofNat m.toNat) / value (ofNat 1000) < (2 ^ 44 : ℕ) := by
    rw [hvalue, hvalue', div_lt_iff₀ (by norm_num)]
    have hcast : (m.toNat : ℚ) < (2 ^ 53 : ℕ) := Nat.cast_lt.mpr hm
    push_cast at hcast ⊢
    linarith
  have hnear := div_near hproper hproper' (by decide +kernel) (by decide) hlt
  rw [hvalue, hvalue'] at hnear
  rw [Session.seconds, hthousand]
  exact hnear

/-- A stamp that is older than a window by more than a second is before the cutoff of the window,
however the three times are rounded. -/
theorem not_ge_cutoff {m now : UInt64} {secs : Nat} (hnow : now.toNat < 2 ^ 53)
    (hold : m.toNat + 1000 * (secs + 1) ≤ now.toNat) :
    ¬ Session.seconds m ≥ Session.seconds now - ofNat secs := by
  intro hge
  obtain ⟨hproper, hvalue⟩ := seconds_near hnow
  obtain ⟨hproperm, hvaluem⟩ := seconds_near (m := m) (by omega)
  obtain ⟨hpropers, hvalues⟩ := ofNat_proper (n := secs) (by omega)
  have herror : ((2 ^ 44 : ℕ) : ℚ) / 2 ^ 54 = 1 / 1024 := by norm_num
  have hgap : (m.toNat : ℚ) + 1000 * (secs + 1) ≤ now.toNat := by exact_mod_cast hold
  have hbound : (now.toNat : ℚ) < 2 ^ 53 := by exact_mod_cast hnow
  have hpos : (0 : ℚ) ≤ m.toNat := Nat.cast_nonneg _
  rw [herror, abs_le] at hvalue hvaluem
  have hlt : value (ofNat secs) < value (Session.seconds now) := by
    rw [hvalues]
    linarith [hvalue.1]
  have hsmall : value (Session.seconds now) < (2 ^ 44 : ℕ) := by
    push_cast
    linarith [hvalue.2]
  obtain ⟨hcutoff, hnear⟩ := sub_near hproper hpropers hlt (by decide) hsmall
  rw [herror, hvalues, abs_le] at hnear
  have hle := value_le_of_le hcutoff hproperm hge
  linarith [hvalue.1, hvaluem.2, hnear.1]

/-! ## The mean of a run -/

/-- Of samples that are spaced so that the newest reach back beyond a window, only the newest matter
to the mean over the window. -/
theorem meanSince_newest {cap ms secs : Nat} {samples : List RecentBattery} {stamps : List UInt64}
    (hmono : samples.map RecentBattery.monoSecs = stamps.map Session.seconds)
    (hspaced : SpacedBy ms stamps) (hreach : 1000 * (secs + 1) ≤ ms * cap) {now : UInt64}
    (hlast : now ∈ stamps.getLast?) (hnow : now.toNat < 2 ^ 53) :
    meanSince (Session.seconds now - ofNat secs) (Shedding.newest cap samples) =
      meanSince (Session.seconds now - ofNat secs) samples := by
  have hlength : samples.length = stamps.length := by
    have hlengths := congrArg List.length hmono
    rwa [List.length_map, List.length_map] at hlengths
  have hbefore : ∀ s ∈ samples.take (samples.length - cap),
      ¬ s.monoSecs ≥ Session.seconds now - ofNat secs := by
    intro s hs
    have hmem := List.mem_map_of_mem (f := RecentBattery.monoSecs) hs
    rw [List.map_take, hmono, hlength, ← List.map_take, List.mem_map] at hmem
    obtain ⟨a, ha, heq⟩ := hmem
    have hold := hspaced.given_up ha hlast
    rw [← heq]
    exact not_ge_cutoff hnow (le_trans (Nat.add_le_add_left hreach _) hold)
  rw [← meanSince_append hbefore, Shedding.take_append_newest]

theorem fst_batteryRead {d : Delivery} {b : Sample Binary64 × Collectors.BatteryRaw}
    (hread : d.batteryRead = some b) : b.1 = MonitorState.batterySample d.stamp b.2 := by
  unfold Delivery.batteryRead at hread
  split at hread
  · cases hread
  · split at hread
    · exact Option.some.inj hread ▸ rfl
    · cases hread

theorem batterySamples_mono (ds : List Delivery) :
    (batterySamples ds).map Sample.mono = (batteryStamps ds).map Session.seconds := by
  rw [batterySamples, batteryStamps, List.map_map, List.map_filterMap, List.map_filterMap]
  congr 1
  funext d
  cases hread : d.batteryRead with
  | none => rfl
  | some b =>
      have hmono : b.1.mono = Session.seconds d.stamp.monoMillis := by
        rw [fst_batteryRead hread, MonitorState.batterySample]
      rw [Option.map_some, Option.map_some, Option.map_some, Function.comp_apply, hmono]

/-- Where the battery samples of a run are spaced so that the kept ones reach back beyond a window,
the mean that is shown for the window is the mean of all samples of the session in it. -/
theorem windowMean_of_spaced {cfg : Config} {ds : List Delivery} {st : MonitorState}
    (hrun : MonitorState.run cfg ds = some st) {ms secs : Nat}
    (hspaced : SpacedBy ms (batteryStamps ds)) (hreach : 1000 * (secs + 1) ≤ ms * recentBatteryCap)
    {now : UInt64} (hlast : now ∈ (batteryStamps ds).getLast?) (hnow : now.toNat < 2 ^ 53) :
    st.summary.windowMeanDischarge (Session.seconds now) (ofNat secs) =
      meanSince (Session.seconds now - ofNat secs)
        ((batterySamples ds).map fun b => ⟨b.mono, b.discharge⟩) := by
  rw [SummaryAccum.windowMeanDischarge, (run_summarises hrun).recent]
  refine meanSince_newest ?_ hspaced hreach hlast hnow
  rw [← batterySamples_mono, List.map_map]
  rfl

theorem windowMean_of_spaced_pausedOnce :
    (summed batteryEverySecond pausedOnce).summary.windowMeanDischarge (Session.seconds 6000)
        (ofNat 300) =
      meanSince (Session.seconds 6000 - ofNat 300)
        ((batterySamples pausedOnce).map fun b => ⟨b.mono, b.discharge⟩) :=
  have hrun : MonitorState.run batteryEverySecond pausedOnce =
      some (summed batteryEverySecond pausedOnce) := by
    rw [run_eq]
    rfl
  have hspaced : SpacedBy 74 (batteryStamps pausedOnce) :=
    List.isChain_cons_cons.mpr ⟨by decide, List.isChain_singleton (6000 : UInt64)⟩
  windowMean_of_spaced hrun hspaced (by decide) rfl (by decide)

end PowerForensics.Monitor
