import PowerForensics.Cli.PrunePlan

/-! # Limits of retention

The days are multiplied to seconds and the megabytes to bytes in 64 bits, and any positive number of
either is accepted. What a very large number selects is what its remainder selects, and where the
remainder is too large for the clock, the process ends.
-/

namespace PowerForensics.Cli

open Shedding Merging Analyze

/-! ## Selections -/

/-- The files that the age policy selects. -/
def selectOld (a : SessionsArgs) (clock : Clock) (fs : FileSystem) (files : List SessionPath) :
    Option (List SessionPath) :=
  match a.pruneDays with
  | none => some []
  | some days => (clock.cutoff days).map fun cutoff => files.filter (isOld fs cutoff)

def selectSized (a : SessionsArgs) (fs : FileSystem) : List SessionPath :=
  match a.maxMb with
  | none => []
  | some mb => ((listJsonl fs a.dir).map fun files =>
      selectLarge (files.filterMap (fileInfo fs)) mb).getD []

structure Selection where
  byAge : List SessionPath
  bySize : List SessionPath

/-- What the command selects, unless a limit ends it. -/
def selectSessions (a : SessionsArgs) (clock : Clock) (fs fs' : FileSystem) : Option Selection :=
  match listJsonl fs a.dir with
  | none => some ⟨[], []⟩
  | some files =>
      if files = [] then some ⟨[], []⟩
      else (selectOld a clock fs files).map fun aged => ⟨aged, selectSized a fs'⟩

/-- The age policy removes what it selects. -/
theorem pruneDays_eq (a : SessionsArgs) (clock : Clock) (fs : FileSystem)
    (files : List SessionPath) :
    pruneDays a clock fs files = (selectOld a clock fs files).map (removeFiles fs a.yes) := by
  unfold pruneDays selectOld
  cases a.pruneDays with
  | none =>
      cases hyes : a.yes <;> simp [removeFiles]
  | some days => rw [Option.map_map]; rfl

theorem removeFiles_nil (fs : FileSystem) (yes : Bool) : removeFiles fs yes [] = [] := by
  cases yes <;> rfl

/-- The size policy removes what it selects. -/
theorem removed_maxMb (a : SessionsArgs) (fs : FileSystem) :
    (maxMb a fs).removed = removeFiles fs a.yes (selectSized a fs) := by
  unfold maxMb selectSized
  cases a.maxMb with
  | none => exact (removeFiles_nil fs a.yes).symm
  | some mb =>
      cases listJsonl fs a.dir with
      | none => exact (removeFiles_nil fs a.yes).symm
      | some files => rfl

/-- The command removes what it selects, each selection as its policy finds the files. -/
theorem removed_cmdSessions {args : List String} {a : SessionsArgs}
    (hargs : parseArgs .default args = .ok a) (clock : Clock) (fs fs' : FileSystem) :
    (cmdSessions args clock fs fs').removed = (selectSessions a clock fs fs').elim [] fun s =>
      removeFiles fs a.yes s.byAge ++ removeFiles fs' a.yes s.bySize := by
  have hnothing : removeFiles fs a.yes [] ++ removeFiles fs' a.yes [] = [] := by
    rw [removeFiles_nil, removeFiles_nil, List.append_nil]
  simp only [cmdSessions, selectSessions, hargs]
  cases listJsonl fs a.dir with
  | none => exact hnothing.symm
  | some files =>
      dsimp only
      split
      next => exact hnothing.symm
      next =>
        rw [pruneDays_eq]
        cases selectOld a clock fs files with
        | none => rfl
        | some aged =>
            simp only [Option.map_some, Option.elim_some, removed_maxMb]

/-! ## Exact limits -/

def nanosPerDay : Int := 86400 * 1000000000

def exactCutoff (clock : Clock) (days : UInt64) : Int := clock.now - days.toNat * nanosPerDay

def wrappedCutoff (clock : Clock) (days : UInt64) : Int :=
  clock.now - (days.toNat * 86400 % 2 ^ 64 : ℕ) * 1000000000

def knownTotal (fs : FileSystem) (files : List SessionPath) : Nat :=
  total sizeOf_ (knownFiles (files.filterMap (fileInfo fs)))

def bytesPerMb : Nat := 1048576

/-- No limit ends the process, only files older than the days are selected for their age, and none
for its size if all sizes together are within the megabytes. -/
def Retains (a : SessionsArgs) (clock : Clock) (fs fs' : FileSystem) : Prop :=
  ∃ s, selectSessions a clock fs fs' = some s ∧
    (∀ p ∈ s.byAge, ∃ days ∈ a.pruneDays, AgedOut fs (exactCutoff clock days) p) ∧
    ∀ mb ∈ a.maxMb, ∀ files ∈ listJsonl fs' a.dir,
      knownTotal fs' files ≤ mb.toNat * bytesPerMb → s.bySize = []

/-- The remainder of the days is a time, and no file was last modified between the two times. -/
structure DaysSafe (clock : Clock) (fs : FileSystem) (files : List SessionPath) (days : UInt64) :
    Prop where
  reached : clock.earliest ≤ wrappedCutoff clock days
  between : ∀ p ∈ files, ∀ m ∈ fs.metadata p, ∀ t ∈ m.modified,
    ¬ (exactCutoff clock days ≤ t ∧ t < wrappedCutoff clock days)

/-- The sizes are over the megabytes, or in 64 bits they are not over them either. -/
def MbSafe (fs : FileSystem) (files : List SessionPath) (mb : UInt64) : Prop :=
  mb.toNat * bytesPerMb < knownTotal fs files ∨
    knownTotal fs files % 2 ^ 64 ≤ mb.toNat * bytesPerMb % 2 ^ 64

/-- The limits are safe for the sessions that the policies find, if the first one finds any. -/
def LimitsSafe (a : SessionsArgs) (clock : Clock) (fs fs' : FileSystem) : Prop :=
  ∀ files ∈ listJsonl fs a.dir, files ≠ [] →
    (∀ days ∈ a.pruneDays, DaysSafe clock fs files days) ∧
      ∀ mb ∈ a.maxMb, ∀ files' ∈ listJsonl fs' a.dir, MbSafe fs' files' mb

/-- Limits whose products fit 64 bits are safe, as long as the clock reaches back. -/
theorem limitsSafe_of_fit {a : SessionsArgs} {clock : Clock} {fs fs' : FileSystem}
    (hdays : ∀ days ∈ a.pruneDays,
      days.toNat * 86400 < 2 ^ 64 ∧ clock.earliest ≤ exactCutoff clock days)
    (hmb : ∀ mb ∈ a.maxMb, mb.toNat * bytesPerMb < 2 ^ 64) : LimitsSafe a clock fs fs' := by
  intro files _ _
  constructor
  · intro days hmem
    obtain ⟨hfits, hreached⟩ := hdays days hmem
    have hsame : wrappedCutoff clock days = exactCutoff clock days := by
      rw [exactCutoff, wrappedCutoff, nanosPerDay, Nat.mod_eq_of_lt hfits]
      omega
    constructor
    · rw [hsame]
      exact hreached
    · rintro p hp m hm t ht ⟨hyoung, hlt⟩
      rw [hsame] at hlt
      exact absurd hyoung (not_le.mpr hlt)
  · intro mb hmem files' _
    rw [MbSafe, Nat.mod_eq_of_lt (hmb mb hmem)]
    by_cases hover : mb.toNat * bytesPerMb < knownTotal fs' files'
    · exact Or.inl hover
    · exact Or.inr ((Nat.mod_le _ _).trans (not_lt.mp hover))

/-! ## Ages -/

theorem cutoff_eq (clock : Clock) (days : UInt64) :
    clock.cutoff days =
      if wrappedCutoff clock days < clock.earliest then none
      else some (wrappedCutoff clock days) := by
  have hsecs : (days * 86400).toNat = days.toNat * 86400 % 2 ^ 64 := UInt64.toNat_mul days 86400
  rw [Clock.cutoff, wrappedCutoff, hsecs]

/-- A limit of days is safe exactly if it ends nothing and selects old files only. -/
theorem daysSafe_iff {clock : Clock} {fs : FileSystem} {files : List SessionPath} {days : UInt64} :
    DaysSafe clock fs files days ↔
      ∃ cutoff, clock.cutoff days = some cutoff ∧
        ∀ p ∈ files.filter (isOld fs cutoff), AgedOut fs (exactCutoff clock days) p := by
  rw [cutoff_eq]
  by_cases hreached : wrappedCutoff clock days < clock.earliest
  · rw [if_pos hreached]
    refine iff_of_false (fun h => ?_) (by simp)
    exact absurd h.reached (not_le.mpr hreached)
  rw [if_neg hreached]
  constructor
  · intro h
    refine ⟨_, rfl, fun p hp => ?_⟩
    obtain ⟨hmem, hold⟩ := List.mem_filter.mp hp
    obtain ⟨m, t, hm, ht, hlt⟩ := isOld_iff.mp hold
    refine ⟨m, t, hm, ht, ?_⟩
    by_contra hyoung
    exact h.between p hmem m hm t ht ⟨not_lt.mp hyoung, hlt⟩
  · rintro ⟨_, hcutoff, hold⟩
    obtain rfl := Option.some.inj hcutoff
    refine ⟨not_lt.mp hreached, ?_⟩
    rintro p hp m hm t ht ⟨hyoung, hlt⟩
    -- a file between the two times is selected, and it is not old
    have hselected : p ∈ files.filter (isOld fs (wrappedCutoff clock days)) :=
      List.mem_filter.mpr ⟨hp, isOld_iff.mpr ⟨m, t, hm, ht, hlt⟩⟩
    obtain ⟨m', t', hm', ht', hlt'⟩ := hold p hselected
    obtain rfl := Option.some.inj (hm.symm.trans hm')
    obtain rfl := Option.some.inj (ht.symm.trans ht')
    exact absurd hyoung (not_le.mpr hlt')

/-! ## Sizes -/

theorem toNat_budget (mb : UInt64) :
    (mb * 1024 * 1024).toNat = mb.toNat * bytesPerMb % 2 ^ 64 := by
  rw [UInt64.toNat_mul, UInt64.toNat_mul, Nat.mod_mul_mod, Nat.mul_assoc]
  rfl

/-- The plan for an excess names a file whose age is known. -/
theorem planVictims_ne_nil {files : List (String × UInt64 × Option Nat)} {budget : UInt64}
    (hover : ¬ totalBytes (files.filterMap agedFile) ≤ budget) :
    ∃ f ∈ files.filterMap agedFile, f.name ∈ planVictims files budget := by
  have hperm : (byAge files).Perm (files.filterMap agedFile) := stableSort_perm _ _
  have hsum : totalBytes (byAge files) = totalBytes (files.filterMap agedFile) := by
    rw [← UInt64.toNat_inj, toNat_totalBytes_mod, toNat_totalBytes_mod, total_perm sizeOf_ hperm]
  have hexcess : saturatingSub (totalBytes (byAge files)) budget ≠ 0 := by
    rw [Ne, ← UInt64.toNat_inj, toNat_saturatingSub, UInt64.toNat_zero, hsum]
    rw [UInt64.le_iff_toNat_le] at hover
    omega
  cases hsorted : byAge files with
  | nil =>
      rw [← hsum, hsorted] at hover
      exact absurd (UInt64.zero_le) hover
  | cons f rest =>
      refine ⟨f, hperm.mem_iff.mp (by rw [hsorted]; exact List.mem_cons_self), ?_⟩
      rw [planVictims, hsorted, victims, if_neg (hsorted ▸ hexcess)]
      exact List.mem_cons_self

/-- Nothing is selected for its size if the remainders fit, and only then. -/
theorem selectLarge_eq_nil_iff (infos : List FileInfo) (mb : UInt64) :
    selectLarge infos mb = [] ↔
      total sizeOf_ (knownFiles infos) % 2 ^ 64 ≤ mb.toNat * bytesPerMb % 2 ^ 64 := by
  rw [← toNat_budget, ← toNat_totalBytes_mod, ← UInt64.le_iff_toNat_le]
  unfold selectLarge
  dsimp only
  split
  next hfits => exact iff_of_true rfl hfits
  next hover =>
    refine iff_of_false (fun hnil => ?_) hover
    obtain ⟨f, hf, hplan⟩ := planVictims_ne_nil hover
    obtain ⟨file, hfile, hsome⟩ := List.mem_filterMap.mp hf
    obtain ⟨info, hinfo, rfl⟩ := List.mem_map.mp hfile
    have hname : info.name = f.name := congrArg Prod.fst (agedFile_eq_some hsome)
    -- the name that is planned is found again among the files
    have hfound := List.filterMap_eq_nil_iff.mp hnil f.name hplan
    rw [Option.map_eq_none_iff, List.find?_eq_none] at hfound
    exact hfound info hinfo (by rw [hname]; exact decide_eq_true rfl)

theorem mbSafe_iff {fs : FileSystem} {files : List SessionPath} {mb : UInt64} :
    MbSafe fs files mb ↔ (knownTotal fs files ≤ mb.toNat * bytesPerMb →
      selectLarge (files.filterMap (fileInfo fs)) mb = []) := by
  rw [selectLarge_eq_nil_iff, MbSafe, ← not_le, ← imp_iff_not_or, knownTotal]

/-! ## Both -/

theorem selectOld_iff {a : SessionsArgs} {clock : Clock} {fs : FileSystem}
    {files : List SessionPath} :
    (∃ aged, selectOld a clock fs files = some aged ∧
      ∀ p ∈ aged, ∃ days ∈ a.pruneDays, AgedOut fs (exactCutoff clock days) p) ↔
      ∀ days ∈ a.pruneDays, DaysSafe clock fs files days := by
  unfold selectOld
  cases a.pruneDays with
  | none => simp
  | some days =>
      simp only [Option.mem_def, Option.some.injEq, exists_eq_left', forall_eq', daysSafe_iff,
        Option.map_eq_some_iff]
      constructor
      · rintro ⟨_, ⟨cutoff, hcutoff, rfl⟩, hold⟩
        exact ⟨cutoff, hcutoff, hold⟩
      · rintro ⟨cutoff, hcutoff, hold⟩
        exact ⟨_, ⟨cutoff, hcutoff, rfl⟩, hold⟩

theorem selectSized_iff {a : SessionsArgs} {fs : FileSystem} :
    (∀ mb ∈ a.maxMb, ∀ files ∈ listJsonl fs a.dir,
      knownTotal fs files ≤ mb.toNat * bytesPerMb → selectSized a fs = []) ↔
      ∀ mb ∈ a.maxMb, ∀ files ∈ listJsonl fs a.dir, MbSafe fs files mb := by
  refine forall₂_congr fun mb hmb => forall₂_congr fun files hfiles => ?_
  rw [mbSafe_iff, selectSized, hmb, hfiles]
  rfl

/-- The command keeps to its limits exactly if their products are safe: the remainder of the seconds
is a time, no file was last modified between the two times, and the sizes are over the limit or in
64 bits not over it either. -/
theorem retention_iff (a : SessionsArgs) (clock : Clock) (fs fs' : FileSystem) :
    Retains a clock fs fs' ↔ LimitsSafe a clock fs fs' := by
  unfold Retains LimitsSafe selectSessions
  cases hlisted : listJsonl fs a.dir with
  | none => simp
  | some files =>
      simp only [Option.mem_def, Option.some.injEq, forall_eq']
      split
      next hnone =>
        -- without sessions the command is done before it looks at the limits
        refine iff_of_true ⟨_, rfl, ?_, fun _ _ _ _ _ => rfl⟩ (fun hsome => absurd hnone hsome)
        intro p hp
        cases hp
      next hsome =>
        rw [forall_prop_of_true hsome]
        have hold := @selectOld_iff a clock fs files
        have hsized := @selectSized_iff a fs'
        simp only [Option.mem_def] at hold hsized
        rw [← hold, ← hsized]
        constructor
        · rintro ⟨s, hs, haged, hlarge⟩
          obtain ⟨aged, hselected, rfl⟩ := Option.map_eq_some_iff.mp hs
          exact ⟨⟨aged, hselected, haged⟩, hlarge⟩
        · rintro ⟨⟨aged, hselected, haged⟩, hlarge⟩
          exact ⟨⟨aged, selectSized a fs'⟩, by rw [hselected]; rfl, haged, hlarge⟩

/-- One session, last modified a day ago. -/
def dayOld (now : Int) : FileSystem where
  readDir _ := some [some (codePoints "a.jsonl")]
  metadata _ := some ⟨1, some (now - nanosPerDay)⟩
  removable _ := true

/-- The seconds of so many days leave a remainder of less than a day. -/
theorem day_old_selected : ¬ ∀ args a clock fs fs', parseArgs .default args = .ok a →
    Retains a clock fs fs' := by
  intro h
  have hparsed : parseArgs .default ["--prune-days", "213503982334602"] =
      .ok ⟨"sessions", some 213503982334602, none, false⟩ := by
    have hvalue : parsePositive "213503982334602" = some 213503982334602 := by decide
    simp [parseArgs, hvalue, SessionsArgs.default]
  obtain ⟨s, hs, haged, -⟩ := h _ _ ⟨10 ^ 18, 0⟩ (dayOld (10 ^ 18)) (dayOld (10 ^ 18)) hparsed
  have hselected : (selectSessions ⟨"sessions", some 213503982334602, none, false⟩ ⟨10 ^ 18, 0⟩
      (dayOld (10 ^ 18)) (dayOld (10 ^ 18))).map Selection.byAge =
        some [⟨"sessions", codePoints "a.jsonl"⟩] := by
    decide
  rw [hs, Option.map_some, Option.some.injEq] at hselected
  obtain ⟨days, hdays, m, t, hm, ht, hlt⟩ := haged _ (by rw [hselected]; exact List.mem_cons_self)
  obtain rfl := Option.some.inj hdays
  obtain rfl := Option.some.inj hm
  obtain rfl := Option.some.inj ht
  revert hlt
  decide

end PowerForensics.Cli
