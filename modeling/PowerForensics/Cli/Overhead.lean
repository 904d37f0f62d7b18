import PowerForensics.Binary64.Order
import PowerForensics.Core.ExperimentAgreement
import PowerForensics.Core.Session

/-! # What the program costs by itself

The overhead benchmark records two phases and compares the load of the program in them by medians.
A reading that is unavailable takes part in the median as a value that is not a number, which comes
behind all numbers, so that it moves the middle of the known readings up.
-/

namespace PowerForensics.Cli

open Binary64 Stats Session Experiment Merging

/-! ## The figures of the benchmark -/

/-- The median of a field of the samples that the program takes of itself. -/
def selfMed (s : SessionData) (f : SelfPoint → Binary64) : Option Binary64 :=
  median (s.selfmon.map f)

/-- Of a field that is not known in both phases there is no difference. -/
def selfCpuDelta (a b : Option Binary64) : Option Binary64 :=
  match a, b with
  | some a, some b => some (b - a)
  | _, _ => none

structure SelfFigures where
  cpuA : Option Binary64
  cpuB : Option Binary64
  cpuDelta : Option Binary64
  wsB : Option Binary64
  deriving DecidableEq

/-- The figures of two phases, the second of which is the normal one. -/
def cmdOverhead (sa sb : SessionData) : SelfFigures :=
  let cpuA := (selfMed sa fun p => p.cpuPct.val.getD nan).filter isFinite
  let cpuB := (selfMed sb fun p => p.cpuPct.val.getD nan).filter isFinite
  { cpuA, cpuB
    cpuDelta := selfCpuDelta cpuA cpuB
    wsB := (selfMed sb fun p => p.wsMb.val.getD nan).filter isFinite }

/-! ## The figures of what is known -/

/-- The readings of a field, in the order of the samples. -/
def readings (s : SessionData) (field : SelfPoint → Telemetry Binary64) : List (Option Binary64) :=
  s.selfmon.map fun p => (field p).val

def known (s : SessionData) (field : SelfPoint → Telemetry Binary64) : List Binary64 :=
  (readings s field).filterMap id

/-- The figures that rest on the known readings and on nothing else. -/
def knownFigures (sa sb : SessionData) : SelfFigures :=
  let cpuA := median (known sa SelfPoint.cpuPct)
  let cpuB := median (known sb SelfPoint.cpuPct)
  { cpuA, cpuB
    cpuDelta := selfCpuDelta cpuA cpuB
    wsB := median (known sb SelfPoint.wsMb) }

/-- The mean of what sorted values have at the middle places of so many. -/
def middleOf (sorted : List Binary64) (count : Nat) : Binary64 :=
  let places := middlePlaces count
  if places.1 = places.2 then at_ sorted places.1
  else middle (at_ sorted places.1) (at_ sorted places.2)

/-- Nothing is known, or the known values have a finite mean at the middle places of all samples,
and it is the one at their own middle places. -/
def Unmoved (rs : List (Option Binary64)) : Prop :=
  let values := rs.filterMap id
  let sorted := stableSort totalRank values
  let places := middlePlaces rs.length
  values = [] ∨ places.1 < values.length ∧ places.2 < values.length ∧
    (middleOf sorted rs.length).isFinite = true ∧
    middleOf sorted rs.length = middleOf sorted values.length

/-! ## The places of known values -/

section Places

variable {x y : Binary64}

theorem infinite_half (hx : x.isInfinite = true) : (x * 0.5).isInfinite = true := by
  have hmag : x.magnitude = infMagnitude := of_decide_eq_true hx
  have hhalf := (half_fields_eq (isNaN_of_infinite hx)).2.2
  rw [hmag, halfMagnitude, if_pos rfl] at hhalf
  exact decide_eq_true hhalf

theorem middle_of_nan (hx : x.isNaN = true) : middle x y = nan := by
  have hmul : x * 0.5 = nan := by
    change mul x 0.5 = nan
    rw [mul, hx, Bool.true_or, if_pos rfl]
  rw [middle, hmul, add_of_nan (Or.inl isNaN_nan)]

/-- What has a finite middle is finite. -/
theorem finite_of_middle (h : (middle x y).isFinite = true) : x.isFinite = true := by
  obtain ⟨hnan, hinf⟩ := fields_of_finite h
  cases hx : x.isNaN with
  | true =>
      rw [middle_of_nan hx, isNaN_nan] at hnan
      cases hnan
  | false =>
      refine (finite_or_infinite hx).resolve_right fun hxinf => ?_
      rw [middle, add_of_infinite (infinite_half hxinf) hnan, infinite_half hxinf] at hinf
      cases hinf

theorem middle_comm (x y : Binary64) : middle x y = middle y x := add_comm_number _ _

end Places

/-- The known values and those that are not numbers. -/
def filled (rs : List (Option Binary64)) : List Binary64 := rs.map fun r => r.getD nan

section Sorted

variable (rs : List (Option Binary64))

/-- Numbers are before what stands for an unavailable reading. -/
theorem rank_lt_of_finite {x : Binary64} (hx : x.isFinite = true) :
    x.totalRank < nan.totalRank := by
  have hmag : x.magnitude < infMagnitude := of_decide_eq_true hx
  have hnan : nan.totalRank = infMagnitude + 2 ^ 51 := by decide +kernel
  rw [hnan, totalRank]
  split <;> omega

theorem filter_filled :
    (filled rs).filter (fun x => x.totalRank < nan.totalRank) =
      (rs.filterMap id).filter fun x => x.totalRank < nan.totalRank := by
  induction rs with
  | nil => rfl
  | cons r rs ih =>
      rw [filled] at ih
      cases r with
      | none => simp [filled, ih]
      | some x =>
          have hsome : (some x :: rs).filterMap id = x :: rs.filterMap id := rfl
          rw [hsome, filled, List.map_cons, List.filter_cons, List.filter_cons, ih,
            Option.getD_some]

/-- The numbers of some values come first when these are sorted. -/
theorem at_of_lt {values : List Binary64} {i : Nat}
    (hi : i < (values.filter fun x => x.totalRank < nan.totalRank).length) :
    at_ (stableSort totalRank values) i =
      at_ (stableSort totalRank (values.filter fun x => x.totalRank < nan.totalRank)) i := by
  obtain ⟨rest, hsplit, -⟩ := stableSort_split totalRank nan.totalRank values
  rw [hsplit, at_, at_, List.getElem?_append_left]
  rwa [(stableSort_perm totalRank _).length_eq]

theorem lt_of_finite {values : List Binary64} {i : Nat} (hi : i < values.length)
    (hfinite : (at_ (stableSort totalRank values) i).isFinite = true) :
    i < (values.filter fun x => x.totalRank < nan.totalRank).length := by
  by_contra hge
  obtain ⟨rest, hsplit, hrest⟩ := stableSort_split totalRank nan.totalRank values
  have hlen := (stableSort_perm totalRank
    (values.filter fun x => x.totalRank < nan.totalRank)).length_eq
  have hall := (stableSort_perm totalRank values).length_eq
  rw [hsplit, List.length_append, hlen] at hall
  have hmem : at_ (stableSort totalRank values) i ∈ rest := by
    rw [hsplit, at_, List.getElem?_append_right (by omega), List.getElem?_eq_getElem (by omega),
      Option.getD_some]
    exact List.getElem_mem _
  exact absurd (rank_lt_of_finite hfinite) (not_lt.mpr (hrest _ hmem))

/-- A finite value has the same place with the unavailable readings and without. -/
theorem at_filled {i : Nat} (hi : i < rs.length)
    (hfinite : (at_ (stableSort totalRank (filled rs)) i).isFinite = true) :
    i < (rs.filterMap id).length ∧
      at_ (stableSort totalRank (filled rs)) i =
      at_ (stableSort totalRank (rs.filterMap id)) i := by
  have hlength : i < (filled rs).length := by rwa [filled, List.length_map]
  have hlt := lt_of_finite hlength hfinite
  have hlt' := filter_filled rs ▸ hlt
  refine ⟨hlt'.trans_le (List.length_filter_le _ _), ?_⟩
  rw [at_of_lt hlt, at_of_lt hlt', filter_filled]

theorem at_known {i : Nat} (hi : i < (rs.filterMap id).length)
    (hfinite : (at_ (stableSort totalRank (rs.filterMap id)) i).isFinite = true) :
    at_ (stableSort totalRank (filled rs)) i = at_ (stableSort totalRank (rs.filterMap id)) i := by
  have hlt := lt_of_finite hi hfinite
  have hlt' := (filter_filled rs).symm ▸ hlt
  rw [at_of_lt hlt, at_of_lt hlt', filter_filled]

end Sorted

/-! ## Medians of what is known -/

section Medians

variable (rs : List (Option Binary64))

theorem median_middleOf {values : List Binary64} (hne : values ≠ []) :
    median values = some (middleOf (stableSort totalRank values) values.length) := median_eq hne

theorem middleOf_congr {sorted sorted' : List Binary64} {count : Nat}
    (hlo : at_ sorted (middlePlaces count).1 = at_ sorted' (middlePlaces count).1)
    (hhi : at_ sorted (middlePlaces count).2 = at_ sorted' (middlePlaces count).2) :
    middleOf sorted count = middleOf sorted' count := by
  rw [middleOf, middleOf, hlo, hhi]

/-- What a finite mean is taken of is finite. -/
theorem finite_of_middleOf {sorted : List Binary64} {count : Nat}
    (h : (middleOf sorted count).isFinite = true) :
    (at_ sorted (middlePlaces count).1).isFinite = true ∧
      (at_ sorted (middlePlaces count).2).isFinite = true := by
  unfold middleOf at h
  dsimp only at h
  split at h
  next heq => exact ⟨h, heq ▸ h⟩
  next => exact ⟨finite_of_middle h, finite_of_middle (middle_comm _ _ ▸ h)⟩

/-- Where nothing is known, the median is not a number, or there is none. -/
theorem median_unknown (hnone : rs.filterMap id = []) :
    (median (filled rs)).filter isFinite = none := by
  cases rs with
  | nil => rfl
  | cons r rs =>
      have hnan : ∀ v ∈ filled (r :: rs), v.isNaN = true := by
        intro v hv
        obtain ⟨o, ho, rfl⟩ := List.mem_map.mp hv
        have hnone := List.filterMap_eq_nil_iff.mp hnone o ho
        rw [show o = none from hnone]
        exact isNaN_nan
      have hmiddle : ∀ {x y : Binary64}, x.isNaN = true → y.isNaN = true →
          (middle x y).isNaN = true := by
        intro x y hx _
        rw [middle_of_nan hx]
        exact isNaN_nan
      obtain ⟨m, hm, hmnan⟩ := median_of_all (p := fun x => x.isNaN = true) hmiddle
        (by simp [filled]) hnan
      have hinfinite : m.isFinite = false := by
        cases hfin : m.isFinite with
        | false => rfl
        | true =>
            rw [(fields_of_finite hfin).1] at hmnan
            cases hmnan
      rw [hm, Option.filter_some, hinfinite]
      rfl

/-- The median with the unavailable readings is that of the known ones exactly if their middle is
unmoved. -/
theorem median_filled_iff :
    (median (filled rs)).filter isFinite = median (rs.filterMap id) ↔ Unmoved rs := by
  by_cases hknown : rs.filterMap id = []
  · rw [median_unknown rs hknown, hknown]
    exact ⟨fun _ => Or.inl hknown, fun _ => rfl⟩
  have hne : filled rs ≠ [] := by
    intro hnil
    rw [filled, List.map_eq_nil_iff] at hnil
    exact hknown (by rw [hnil]; rfl)
  have hlen : (filled rs).length = rs.length := List.length_map _
  have hpos : 0 < rs.length := hlen ▸ List.length_pos_of_ne_nil hne
  obtain ⟨hlo, hhi⟩ := middlePlaces_le rs.length
  rw [median_middleOf hne, median_middleOf hknown, hlen]
  constructor
  · intro heq
    obtain ⟨hvalue, hfinite⟩ := Option.filter_eq_some_iff.mp heq
    have hvalue := Option.some.inj hvalue
    rw [← hvalue] at hfinite
    obtain ⟨hfirst, hsecond⟩ := finite_of_middleOf hfinite
    obtain ⟨hfirst, hat⟩ := at_filled rs (by omega) hfirst
    obtain ⟨hsecond, hat'⟩ := at_filled rs (by omega) hsecond
    rw [middleOf_congr hat hat'] at hvalue hfinite
    exact Or.inr ⟨hfirst, hsecond, hfinite, hvalue⟩
  · rintro (hnil | ⟨hfirst, hsecond, hfinite, hsame⟩)
    · exact absurd hnil hknown
    · obtain ⟨hlofin, hhifin⟩ := finite_of_middleOf hfinite
      rw [middleOf_congr (at_known rs hfirst hlofin) (at_known rs hsecond hhifin),
        Option.filter_some, hfinite, if_pos rfl, hsame]

end Medians

/-! ## Figures that rest on what is known -/

theorem selfMed_eq (s : SessionData) (field : SelfPoint → Telemetry Binary64) :
    (selfMed s fun p => (field p).val.getD nan) = median (filled (readings s field)) := by
  rw [selfMed, filled, readings, List.map_map]
  rfl

/-- No reading that is unavailable moves a median of two phases. -/
structure AllUnmoved (sa sb : SessionData) : Prop where
  cpuA : Unmoved (readings sa SelfPoint.cpuPct)
  cpuB : Unmoved (readings sb SelfPoint.cpuPct)
  wsB : Unmoved (readings sb SelfPoint.wsMb)

/-- The figures of two phases rest on the known readings exactly if no reading that is unavailable
moves a median; so phases with the same known readings have the same figures. -/
theorem overhead_known_iff (sa sb : SessionData) :
    (cmdOverhead sa sb = knownFigures sa sb ↔ AllUnmoved sa sb) ∧
      ∀ sa' sb', known sa' SelfPoint.cpuPct = known sa SelfPoint.cpuPct →
        known sb' SelfPoint.cpuPct = known sb SelfPoint.cpuPct →
        known sb' SelfPoint.wsMb = known sb SelfPoint.wsMb →
        AllUnmoved sa sb → AllUnmoved sa' sb' → cmdOverhead sa' sb' = cmdOverhead sa sb := by
  have hiff : ∀ sa sb, cmdOverhead sa sb = knownFigures sa sb ↔ AllUnmoved sa sb := by
    intro sa sb
    have hcpuA := median_filled_iff (readings sa SelfPoint.cpuPct)
    have hcpuB := median_filled_iff (readings sb SelfPoint.cpuPct)
    have hwsB := median_filled_iff (readings sb SelfPoint.wsMb)
    rw [cmdOverhead, selfMed_eq sa SelfPoint.cpuPct, selfMed_eq sb SelfPoint.cpuPct,
      selfMed_eq sb SelfPoint.wsMb, knownFigures, known, known, known]
    constructor
    · intro heq
      obtain ⟨ha, hb, -, hw⟩ := SelfFigures.mk.inj heq
      exact ⟨hcpuA.mp ha, hcpuB.mp hb, hwsB.mp hw⟩
    · intro h
      rw [hcpuA.mpr h.cpuA, hcpuB.mpr h.cpuB, hwsB.mpr h.wsB]
  refine ⟨hiff sa sb, fun sa' sb' hcpuA hcpuB hwsB h h' => ?_⟩
  rw [(hiff sa' sb').mpr h', (hiff sa sb).mpr h, knownFigures, knownFigures, hcpuA, hcpuB, hwsB]

/-- A phase with one sample for each reading of the load. -/
def phaseOf (loads : List (Reading Binary64)) : SessionData :=
  { (default : SessionData) with
    selfmon := loads.map fun load =>
      { (default : SelfPoint) with cpuPct := { (default : Telemetry Binary64) with value := load } } }

/-- The first sample of the normal phase is taken while the collector warms up. -/
def warmedUp : SessionData :=
  phaseOf [.unavailable "warming up (first tick)", .measured 1, .measured 2, .measured 4]

/-- The median of the known readings is 2, and 3 is reported. -/
theorem median_moved :
    (cmdOverhead (phaseOf [.measured 1]) warmedUp).cpuB = some 3 ∧
      (knownFigures (phaseOf [.measured 1]) warmedUp).cpuB = some 2 ∧
      ¬∀ sa sb : SessionData, cmdOverhead sa sb = knownFigures sa sb := by
  have hcode : (cmdOverhead (phaseOf [.measured 1]) warmedUp).cpuB = some 3 := by decide +kernel
  have hknown : (knownFigures (phaseOf [.measured 1]) warmedUp).cpuB = some 2 := by decide +kernel
  refine ⟨hcode, hknown, fun h => ?_⟩
  have hsame := congrArg SelfFigures.cpuB (h (phaseOf [.measured 1]) warmedUp)
  rw [hcode, hknown] at hsame
  exact absurd hsame (by decide +kernel)

end PowerForensics.Cli
