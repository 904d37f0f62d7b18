import PowerForensics.Cli.Prune

/-! # What pruning removes

Only sessions of the directory that is listed are removed, each selected by a policy from that
directory's own files as the policy finds them. That is the directory named on the command line
as long as it can be listed.
-/

namespace PowerForensics.Cli

open Shedding Merging Analyze

/-! ## Arguments -/

/-- The arguments that are neither options nor their values. -/
def operands : List String → List String
  | [] => []
  | arg :: rest =>
      if arg = "--prune-days" ∨ arg = "--max-mb" then
        match rest with
        | [] => []
        | _ :: rest => operands rest
      else if arg = "--yes" then operands rest
      else arg :: operands rest

/-- The directory that is named last, or the default. -/
def namedDir (args : List String) : String := (operands args).getLastD "sessions"

/-- Accepted arguments name the directory, and removing is asked for by an argument. -/
theorem parseArgs_ok {args : List String} {a b : SessionsArgs} (h : parseArgs a args = .ok b) :
    b.dir = (operands args).getLastD a.dir ∧ (b.yes → a.yes ∨ "--yes" ∈ args) := by
  induction a, args using parseArgs.induct with
  | case1 a =>
      obtain rfl := Except.ok.inj h
      exact ⟨rfl, Or.inl⟩
  | case2 a => cases h
  | case3 a value rest hvalue =>
      simp [parseArgs, hvalue] at h
  | case4 a value rest days hvalue ih =>
      simp only [parseArgs, hvalue, if_true] at h
      obtain ⟨hdir, hyes⟩ := ih h
      refine ⟨by simpa [operands] using hdir, fun hb => (hyes hb).imp_right ?_⟩
      exact fun hmem => List.mem_cons_of_mem _ (List.mem_cons_of_mem _ hmem)
  | case5 a hne => simp [parseArgs] at h
  | case6 a value rest hvalue hne => simp [parseArgs, hvalue] at h
  | case7 a value rest mb hvalue hne ih =>
      unfold parseArgs at h
      simp only [hvalue, hne, if_true, if_false] at h
      obtain ⟨hdir, hyes⟩ := ih h
      refine ⟨by simpa [operands] using hdir, fun hb => (hyes hb).imp_right ?_⟩
      exact fun hmem => List.mem_cons_of_mem _ (List.mem_cons_of_mem _ hmem)
  | case8 a rest hdays hmb ih =>
      unfold parseArgs at h
      simp only [hdays, hmb, if_true, if_false] at h
      obtain ⟨hdir, -⟩ := ih h
      refine ⟨?_, fun _ => Or.inr List.mem_cons_self⟩
      unfold operands
      simpa using hdir
  | case9 a arg rest hdays hmb hyes hoperand ih =>
      unfold parseArgs at h
      simp only [hdays, hmb, hyes, hoperand, if_true, if_false] at h
      obtain ⟨hdir, hb⟩ := ih h
      refine ⟨?_, fun hyes => (hb hyes).imp_right (List.mem_cons_of_mem _)⟩
      unfold operands
      simp only [hdays, hmb, hyes, or_self, if_false]
      rw [List.getLastD_cons]
      exact hdir
  | case10 a arg rest hdays hmb hyes hoperand =>
      unfold parseArgs at h
      simp only [hdays, hmb, hyes, hoperand, if_false] at h
      cases h

/-! ## Policies -/

/-- A session among the entries of the directory that is listed. -/
structure Listed (fs : FileSystem) (dir : String) (p : SessionPath) : Prop where
  dir : p.dir = listedDir fs dir
  entry : ∃ entries, fs.readDir p.dir = some entries ∧ some p.name ∈ entries
  jsonl : isJsonl p.name = true

theorem mem_listJsonl {fs : FileSystem} {dir : String} {files : List SessionPath}
    (hfiles : listJsonl fs dir = some files) {p : SessionPath} :
    p ∈ files ↔ Listed fs dir p := by
  unfold listJsonl at hfiles
  obtain ⟨entries, hentries, rfl⟩ := Option.map_eq_some_iff.1 hfiles
  rw [List.mem_insertionSort, List.mem_map]
  constructor
  · rintro ⟨name, hname, rfl⟩
    obtain ⟨hmem, hjsonl⟩ := List.mem_filter.1 hname
    obtain ⟨entry, hentry, rfl⟩ := List.mem_filterMap.1 hmem
    exact ⟨rfl, ⟨entries, hentries, hentry⟩, hjsonl⟩
  · rintro ⟨hdir, ⟨entries', hentries', hmem⟩, hjsonl⟩
    rw [hdir, hentries] at hentries'
    obtain rfl := Option.some.inj hentries'
    refine ⟨p.name, List.mem_filter.2 ⟨List.mem_filterMap.2 ⟨_, hmem, rfl⟩, hjsonl⟩, ?_⟩
    rw [← hdir]

/-- A file was last modified before a time. -/
def AgedOut (fs : FileSystem) (cutoff : Int) (p : SessionPath) : Prop :=
  ∃ m t, fs.metadata p = some m ∧ m.modified = some t ∧ t < cutoff

theorem isOld_iff {fs : FileSystem} {cutoff : Int} {p : SessionPath} :
    isOld fs cutoff p ↔ AgedOut fs cutoff p := by
  unfold isOld AgedOut
  cases hm : fs.metadata p with
  | none => simp
  | some m => cases ht : m.modified <;> simp [ht]

/-- What the size policy knows of the sessions of a directory: those whose age is known, the
oldest first, each by the name that is displayed. -/
def agedSessions (fs : FileSystem) (files : List SessionPath) : List AgedFile :=
  byAge ((files.filterMap (fileInfo fs)).map fun f => (f.name, f.bytes, f.mtime))

/-- The size of a file as a number. -/
def sizeOf_ (f : AgedFile) : Nat := f.bytes.toNat

/-- A file is one of the fewest that have to go, oldest first, for the rest to fit a budget. -/
def Surplus (fs : FileSystem) (files : List SessionPath) (budget : Nat) (p : SessionPath) : Prop :=
  ∃ oldest kept, agedSessions fs files = oldest ++ kept ∧ total sizeOf_ kept ≤ budget ∧
    (∀ last ∈ oldest.getLast?, budget < sizeOf_ last + total sizeOf_ kept) ∧
    ∃ f ∈ oldest, f.name = toStringLossy p.name

/-- In 64 bits the sizes add up to the remainder of their sum. -/
theorem toNat_totalBytes_mod (files : List AgedFile) :
    (totalBytes files).toNat = total sizeOf_ files % 2 ^ 64 := by
  have hfold : ∀ sum : UInt64, (files.foldl (fun sum f => sum + f.bytes) sum).toNat =
      (sum.toNat + total sizeOf_ files) % 2 ^ 64 := by
    induction files with
    | nil =>
        intro sum
        exact (Nat.mod_eq_of_lt sum.toNat_lt).symm
    | cons f files ih =>
        intro sum
        rw [List.foldl_cons, ih, UInt64.toNat_add, total_cons, sizeOf_, Nat.mod_add_mod,
          Nat.add_assoc]
  rw [totalBytes, hfold, UInt64.toNat_zero, Nat.zero_add]

theorem victims_eq (overBy : UInt64) (files : List AgedFile) :
    victims overBy files = (shed sizeOf_ overBy.toNat files).map AgedFile.name := by
  induction files generalizing overBy with
  | nil => rfl
  | cons f files ih =>
      have hiff : overBy = 0 ↔ overBy.toNat = 0 := by
        rw [← UInt64.toNat_inj, UInt64.toNat_zero]
      rw [victims, shed]
      by_cases hover : overBy = 0
      · rw [if_pos hover, if_pos (hiff.mp hover)]
        rfl
      · rw [if_neg hover, if_neg (mt hiff.mpr hover), ih, toNat_saturatingSub]
        rfl

/-- The plan gives up what makes up for the excess of the sum in 64 bits. -/
theorem planVictims_eq (files : List (String × UInt64 × Option Nat)) (budget : UInt64) :
    planVictims files budget = (shed sizeOf_
      (total sizeOf_ (byAge files) % 2 ^ 64 - budget.toNat) (byAge files)).map AgedFile.name := by
  rw [planVictims, victims_eq, toNat_saturatingSub, toNat_totalBytes_mod]

/-- A sum that overflows is too small, so that the plan never gives up more than has to go. -/
theorem mem_planVictims {files : List (String × UInt64 × Option Nat)} {budget : UInt64}
    {name : String} (hname : name ∈ planVictims files budget) :
    ∃ oldest kept, byAge files = oldest ++ kept ∧ total sizeOf_ kept ≤ budget.toNat ∧
      (∀ last ∈ oldest.getLast?, budget.toNat < sizeOf_ last + total sizeOf_ kept) ∧
      ∃ f ∈ oldest, f.name = name := by
  obtain ⟨kept, hsplit, hfits, hlast⟩ := shed_spec sizeOf_ budget.toNat (byAge files)
  rw [planVictims_eq] at hname
  obtain ⟨f, hf, hfname⟩ := List.mem_map.1 hname
  have hexcess : total sizeOf_ (byAge files) % 2 ^ 64 - budget.toNat ≤
      total sizeOf_ (byAge files) - budget.toNat := Nat.sub_le_sub_right (Nat.mod_le _ _) _
  exact ⟨_, kept, hsplit, hfits, hlast, f, (shed_le_shed sizeOf_ hexcess _).subset hf, hfname⟩

theorem mem_selectLarge {fs : FileSystem} {files : List SessionPath} {mb : UInt64}
    {p : SessionPath} (hp : p ∈ selectLarge (files.filterMap (fileInfo fs)) mb) :
    p ∈ files ∧ Surplus fs files (mb * 1024 * 1024).toNat p := by
  unfold selectLarge at hp
  dsimp only at hp
  split at hp
  · cases hp
  obtain ⟨name, hname, hfound⟩ := List.mem_filterMap.1 hp
  obtain ⟨info, hinfo, rfl⟩ := Option.map_eq_some_iff.1 hfound
  have hmem := List.mem_of_find?_eq_some hinfo
  have hinfoName : info.name = name := by simpa using List.find?_some hinfo
  obtain ⟨q, hq, hmeta⟩ := List.mem_filterMap.1 hmem
  obtain ⟨m, -, rfl⟩ := Option.map_eq_some_iff.1 hmeta
  obtain ⟨oldest, kept, hsplit, hfits, hlast, f, hf, hfname⟩ := mem_planVictims hname
  exact ⟨hq, oldest, kept, hsplit, hfits, hlast, f, hf, hfname.trans hinfoName.symm⟩

/-- Files are removed only when asked for. -/
theorem mem_removeFiles {fs : FileSystem} {yes : Bool} {paths : List SessionPath} {p : SessionPath}
    (hp : p ∈ removeFiles fs yes paths) : yes = true ∧ p ∈ paths := by
  unfold removeFiles at hp
  split at hp
  next hyes =>
    refine ⟨hyes, ?_⟩
    have hfold : ∀ removed : List SessionPath, p ∈ paths.foldl (fun removed p =>
        if fs.removable p && p ∉ removed then removed ++ [p] else removed) removed →
          p ∈ removed ∨ p ∈ paths := by
      clear hp
      induction paths with
      | nil => exact fun removed h => Or.inl h
      | cons q paths ih =>
          intro removed h
          rcases ih _ h with hmem | hmem
          · dsimp only at hmem
            split at hmem
            · rcases List.mem_append.1 hmem with hmem | hmem
              · exact Or.inl hmem
              · exact Or.inr (List.mem_cons.2 (Or.inl (List.mem_singleton.1 hmem)))
            · exact Or.inl hmem
          · exact Or.inr (List.mem_cons_of_mem _ hmem)
    exact (hfold [] hp).resolve_left List.not_mem_nil
  next => cases hp

/-! ## The command -/

/-- What is promised of a removed file. -/
def Selected (a : SessionsArgs) (clock : Clock) (fs fs' : FileSystem) (p : SessionPath) : Prop :=
  (∃ days cutoff, a.pruneDays = some days ∧ clock.cutoff days = some cutoff ∧
      Listed fs a.dir p ∧ AgedOut fs cutoff p) ∨
    ∃ mb files, a.maxMb = some mb ∧ listJsonl fs' a.dir = some files ∧
      Listed fs' a.dir p ∧ Surplus fs' files (mb * 1024 * 1024).toNat p

theorem pruneDays_selected {a : SessionsArgs} {clock : Clock} {fs fs' : FileSystem}
    {files aged : List SessionPath} {p : SessionPath} (hfiles : listJsonl fs a.dir = some files)
    (haged : pruneDays a clock fs files = some aged) (hp : p ∈ aged) :
    a.yes = true ∧ Selected a clock fs fs' p := by
  unfold pruneDays at haged
  split at haged
  · obtain rfl := Option.some.inj haged
    cases hp
  next days hdays =>
    obtain ⟨cutoff, hcutoff, rfl⟩ := Option.map_eq_some_iff.1 haged
    obtain ⟨hyes, hmem⟩ := mem_removeFiles hp
    obtain ⟨hmem, hold⟩ := List.mem_filter.1 hmem
    exact ⟨hyes, Or.inl ⟨days, cutoff, hdays, hcutoff, (mem_listJsonl hfiles).1 hmem,
      isOld_iff.1 hold⟩⟩

theorem maxMb_selected {a : SessionsArgs} {clock : Clock} {fs fs' : FileSystem} {p : SessionPath}
    (hp : p ∈ (maxMb a fs').removed) : a.yes = true ∧ Selected a clock fs fs' p := by
  unfold maxMb at hp
  split at hp
  · cases hp
  next mb hmb =>
    split at hp
    · cases hp
    next files hfiles =>
      obtain ⟨hyes, hmem⟩ := mem_removeFiles hp
      obtain ⟨hmem, hsurplus⟩ := mem_selectLarge hmem
      exact ⟨hyes, Or.inr ⟨mb, files, hmb, hfiles, (mem_listJsonl hfiles).1 hmem, hsurplus⟩⟩

/-- Every file that is removed is a session of the directory named by the arguments, or of the
current directory if that cannot be listed, and was selected by the age policy or the size policy
from that directory's own files as they were when it ran. Nothing is removed unless asked for. -/
theorem removed_selected {args : List String} {clock : Clock} {fs fs' : FileSystem}
    {p : SessionPath} (hp : p ∈ (cmdSessions args clock fs fs').removed) :
    "--yes" ∈ args ∧ ∃ a, parseArgs .default args = .ok a ∧ a.dir = namedDir args ∧
      Selected a clock fs fs' p := by
  unfold cmdSessions at hp
  split at hp
  · cases hp
  next a hargs =>
    obtain ⟨hdir, hyesArg⟩ := parseArgs_ok hargs
    split at hp
    · cases hp
    next files hfiles =>
      split at hp
      · cases hp
      split at hp
      · cases hp
      next aged haged =>
        dsimp only at hp
        have hselected : a.yes = true ∧ Selected a clock fs fs' p := by
          rcases List.mem_append.1 hp with hmem | hmem
          · exact pruneDays_selected hfiles haged hmem
          · exact maxMb_selected hmem
        exact ⟨(hyesArg hselected.1).resolve_left nofun, a, hargs, hdir, hselected.2⟩

/-- Two megabytes in a session of the one directory that can be listed. -/
def oneDir (dir : String) : FileSystem where
  readDir d := if d = dir then some [some (codePoints "a.jsonl"), none] else none
  metadata _ := some ⟨2097152, some 0⟩
  removable _ := true

def budgetArgs : List String := ["recordings", "--max-mb", "1", "--yes"]

theorem removed_selected_recordings :
    "--yes" ∈ budgetArgs ∧ ∃ a, parseArgs .default budgetArgs = .ok a ∧
      a.dir = namedDir budgetArgs ∧ Selected a ⟨0, 0⟩ (oneDir "recordings") (oneDir "recordings")
        ⟨"recordings", codePoints "a.jsonl"⟩ :=
  removed_selected (by decide +kernel)

/-- The directory that is named does not exist, and a session of the current directory is
removed. -/
theorem removed_elsewhere :
    namedDir budgetArgs = "recordings" ∧ (oneDir ".").readDir "recordings" = none ∧
      (cmdSessions budgetArgs ⟨0, 0⟩ (oneDir ".") (oneDir ".")).removed =
        [⟨".", codePoints "a.jsonl"⟩] := by
  decide +kernel

end PowerForensics.Cli
