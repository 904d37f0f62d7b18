import PowerForensics.Cli.PruneScope

/-! # The plan of the size policy

The plan adds the sizes up and takes them off again in 64 bits. As long as the sum does not
overflow, it gives up the fewest of the oldest files. It tells them apart by the names that are
displayed, which two files of a directory may share.
-/

namespace PowerForensics.Cli

open Shedding Merging

/-! ## The fewest of the oldest -/

/-- What is given up are the fewest of the oldest files of known age, of one age the ones listed
first, for the rest to fit the budget. -/
structure Fewest (files : List (String × UInt64 × Option Nat)) (budget : Nat)
    (gone kept : List AgedFile) : Prop where
  known : (gone ++ kept).Perm (files.filterMap agedFile)
  oldest : Ascending AgedFile.mtime (gone ++ kept)
  ties : ∀ t : Nat, (gone ++ kept).filter (fun f => f.mtime = t) =
    (files.filterMap agedFile).filter fun f => f.mtime = t
  fits : total sizeOf_ kept ≤ budget
  fewest : ∀ front back : List AgedFile, gone ++ kept = front ++ back →
    front.length < gone.length → budget < total sizeOf_ back

/-- Without an overflow the plan gives up the fewest of the oldest. -/
theorem fewest_planVictims {files : List (String × UInt64 × Option Nat)}
    (hsum : total sizeOf_ (byAge files) < 2 ^ 64) (budget : UInt64) :
    ∃ gone kept, planVictims files budget = gone.map AgedFile.name ∧
      Fewest files budget.toNat gone kept := by
  obtain ⟨kept, hsplit, hfits, hlast⟩ := shed_spec sizeOf_ budget.toNat (byAge files)
  have hplan := planVictims_eq files budget
  rw [Nat.mod_eq_of_lt hsum] at hplan
  generalize shed sizeOf_ (total sizeOf_ (byAge files) - budget.toNat) (byAge files) = gone at *
  refine ⟨gone, kept, hplan, ?_⟩
  constructor
  · rw [← hsplit]
    exact stableSort_perm _ _
  · rw [← hsplit]
    exact ascending_stableSort _ _
  · intro t
    rw [← hsplit]
    exact filter_stableSort _ t _
  · exact hfits
  · intro front back hparts hshort
    -- what stays behind holds the last file given up and everything behind it
    obtain ⟨more, rfl⟩ : front <+: gone :=
      List.prefix_of_prefix_length_le ⟨back, hparts.symm⟩ (List.prefix_append gone kept) hshort.le
    rw [List.append_assoc] at hparts
    obtain rfl := List.append_cancel_left hparts
    have hmore : more ≠ [] := by
      rintro rfl
      simp at hshort
    obtain ⟨firsts, last, rfl⟩ := List.eq_nil_or_concat more |>.resolve_left hmore
    have hlarge := hlast last (by simp)
    rw [List.concat_eq_append, List.append_assoc, total_append, List.singleton_append, total_cons]
    exact hlarge.trans_le (Nat.le_add_left _ _)

theorem agedFile_eq_some {file : String × UInt64 × Option Nat} {f : AgedFile}
    (hfile : agedFile file = some f) : file = (f.name, f.bytes, some f.mtime) := by
  obtain ⟨name, bytes, mtime⟩ := file
  obtain ⟨t, rfl, rfl⟩ := Option.map_eq_some_iff.mp hfile
  rfl

/-- A file given up is one of those listed, with its age. -/
theorem Fewest.mem {files : List (String × UInt64 × Option Nat)} {budget : Nat}
    {gone kept : List AgedFile} (h : Fewest files budget gone kept) {f : AgedFile}
    (hf : f ∈ gone) : (f.name, f.bytes, some f.mtime) ∈ files := by
  obtain ⟨file, hfile, hsome⟩ :=
    List.mem_filterMap.mp (h.known.mem_iff.mp (List.mem_append_left kept hf))
  rwa [agedFile_eq_some hsome] at hfile

/-- No more files of a name are given up than are listed with an age. -/
theorem Fewest.count_le {files : List (String × UInt64 × Option Nat)} {budget : Nat}
    {gone kept : List AgedFile} (h : Fewest files budget gone kept) (name : String) :
    (gone.map AgedFile.name).count name ≤
      ((files.filterMap agedFile).map AgedFile.name).count name := by
  rw [← (h.known.map AgedFile.name).count_eq, List.map_append, List.count_append]
  exact Nat.le_add_right _ _

/-- The files of known age are listed files. -/
theorem agedNames_sublist (files : List (String × UInt64 × Option Nat)) :
    ((files.filterMap agedFile).map AgedFile.name).Sublist (files.map Prod.fst) := by
  induction files with
  | nil => exact List.Sublist.slnil
  | cons file files ih =>
      rw [List.map_cons]
      cases hfile : agedFile file with
      | none =>
          rw [List.filterMap_cons_none hfile]
          exact ih.cons _
      | some f =>
          rw [List.filterMap_cons_some hfile, List.map_cons, agedFile_eq_some hfile]
          exact ih.cons_cons _

/-- Where the names differ, none is given up twice. -/
theorem Fewest.nodup {files : List (String × UInt64 × Option Nat)} {budget : Nat}
    {gone kept : List AgedFile} (h : Fewest files budget gone kept)
    (hnames : (files.map Prod.fst).Nodup) : (gone.map AgedFile.name).Nodup := by
  have hall : ((gone ++ kept).map AgedFile.name).Nodup :=
    (h.known.map AgedFile.name).nodup_iff.mpr ((agedNames_sublist files).nodup hnames)
  rw [List.map_append] at hall
  exact hall.of_append_left

/-- Nothing is given up that fits. -/
theorem Fewest.eq_nil {files : List (String × UInt64 × Option Nat)} {budget : Nat}
    {gone kept : List AgedFile} (h : Fewest files budget gone kept)
    (hfits : total sizeOf_ (files.filterMap agedFile) ≤ budget) : gone = [] := by
  cases hgone : gone with
  | nil => rfl
  | cons f rest =>
      have hover := h.fewest [] (gone ++ kept) rfl (by rw [hgone]; exact Nat.succ_pos _)
      rw [total_perm sizeOf_ h.known] at hover
      exact absurd hfits (Nat.not_le.mpr hover)

/-- For sizes that do not overflow, the plan names the fewest of the oldest files of known age for
the rest to fit the budget, none if they all do, and no name more often than files of known age
have it. Where the names differ, it repeats none and names no file of unknown age. -/
theorem planVictims_fewest {files : List (String × UInt64 × Option Nat)}
    (hsum : total sizeOf_ (files.filterMap agedFile) < 2 ^ 64) (budget : UInt64) :
    ∃ gone kept, planVictims files budget = gone.map AgedFile.name ∧
      Fewest files budget.toNat gone kept ∧
      (total sizeOf_ (files.filterMap agedFile) ≤ budget.toNat → planVictims files budget = []) ∧
      (∀ name : String, (planVictims files budget).count name ≤
        ((files.filterMap agedFile).map AgedFile.name).count name) ∧
      ((files.map Prod.fst).Nodup → (planVictims files budget).Nodup ∧
        ∀ (name : String) (bytes : UInt64), (name, bytes, none) ∈ files →
          name ∉ planVictims files budget) := by
  have htotal : total sizeOf_ (byAge files) = total sizeOf_ (files.filterMap agedFile) :=
    total_perm sizeOf_ (stableSort_perm _ _)
  obtain ⟨gone, kept, hplan, h⟩ := fewest_planVictims (htotal.trans_lt hsum) budget
  rw [hplan]
  refine ⟨gone, kept, rfl, h, ?_, h.count_le, ?_⟩
  · intro hfits
    rw [h.eq_nil hfits]
    rfl
  · intro hnames
    refine ⟨h.nodup hnames, ?_⟩
    intro name bytes hunknown hmem
    obtain ⟨f, hf, rfl⟩ := List.mem_map.mp hmem
    have hsame := List.inj_on_of_nodup_map hnames hunknown (h.mem hf) rfl
    cases hsame

theorem planVictims_fewest_three :
    let files : List (String × UInt64 × Option Nat) :=
      [("unreadable.jsonl", 999, none), ("old.jsonl", 60, some 100), ("new.jsonl", 60, some 300)]
    ∃ gone kept, planVictims files 100 = gone.map AgedFile.name ∧ Fewest files 100 gone kept := by
  intro files
  obtain ⟨gone, kept, hplan, h, -⟩ := @planVictims_fewest files (by decide) 100
  exact ⟨gone, kept, hplan, h⟩

/-- Two files of a directory whose names are displayed alike are named twice by the plan. -/
theorem named_twice : ∃ first second : OsName, first ≠ second ∧ isJsonl first = true ∧
    isJsonl second = true ∧ ¬ (planVictims
      [(toStringLossy first, 1, some 0), (toStringLossy second, 1, some 1)] 0).Nodup := by
  refine ⟨0xD800 :: codePoints ".jsonl", 0xD801 :: codePoints ".jsonl", by decide, by decide,
    by decide, ?_⟩
  decide

end PowerForensics.Cli
