import Mathlib.Logic.Function.Basic
import PowerForensics.Core.ArchiveIdentity
import PowerForensics.Core.EnvelopeDoc

/-! # Replacing an archive

An archive is three files. New contents are written beside them under other names, which then
replace the files one after another. A write or a renaming may fail, and the process may stop at
any point; between the first and the last renaming some files are new and some are old, and a
reader cannot tell.
-/

namespace PowerForensics.Cli

open Archive Json Session

open Doc (EndsPlain)

/-! ## Directories -/

/-- The files of a directory with their contents. -/
abbrev Files := String → Option (List UInt8)

/-- Files that get new contents. -/
def overwrite (files : Files) (targets : List (String × List UInt8)) : Files :=
  targets.foldl (fun files t => Function.update files t.1 (some t.2)) files

/-- How the command ends: it may be stopped, or exit with a code. -/
inductive StoreEnd where
  | stopped
  | exited (code : Nat)
  deriving DecidableEq

structure StoreResult where
  files : Files
  ended : StoreEnd

/-! ## The command

Each step that changes the directory takes one answer of the system, whether it succeeds. Where
there is no further answer the process has been stopped.
-/

def tempName (name : String) (pid : UInt32) : String :=
  .ofList (name.toList ++ (".tmp".toList ++ Nat.toDigits 10 pid.toNat))

/-- The answers that are left, unless the process has been stopped. -/
def cleanup : List String → List Bool → Files → Files × Option (List Bool)
  | [], answers, files => (files, some answers)
  | _ :: _, [], files => (files, none)
  | t :: ts, ok :: answers, files =>
      cleanup ts answers (if ok then Function.update files t none else files)

def failed (temps : List String) (answers : List Bool) (files : Files) : StoreResult :=
  match cleanup temps answers files with
  | (files, some _) => ⟨files, .exited 2⟩
  | (files, none) => ⟨files, .stopped⟩

/-- The names of what has been written, and the answers that are left. -/
def writeTemps (pid : UInt32) : List (String × List UInt8) → List String → List Bool → Files →
    Except StoreResult (List String × List Bool × Files)
  | [], temps, answers, files => .ok (temps, answers, files)
  | _ :: _, _, [], files => .error ⟨files, .stopped⟩
  | (name, bytes) :: rest, temps, true :: answers, files =>
      writeTemps pid rest (temps ++ [tempName name pid]) answers
        (Function.update files (tempName name pid) (some bytes))
  | (name, _) :: _, temps, false :: answers, files =>
      .error (failed (tempName name pid :: temps) answers files)

def replaceTargets (temps : List String) : List (String × String) → List Bool → Files →
    StoreResult
  | [], _, files => ⟨files, .exited 0⟩
  | _ :: _, [], files => ⟨files, .stopped⟩
  | (name, tmp) :: rest, true :: answers, files =>
      replaceTargets temps rest answers
        (Function.update (Function.update files name (files tmp)) tmp none)
  | _ :: _, false :: answers, files => failed temps answers files

def archiveNames : List String := ["manifest.json", "samples.bin", "events.jsonl"]

def targets (arch : ArchiveData) : List (String × List UInt8) :=
  [("manifest.json", Utf8.encode arch.manifest.toList), ("samples.bin", arch.samples),
    ("events.jsonl", Utf8.encode ("\n".intercalate arch.events).toList)]

/-- What is done once the session has been loaded and migrated. -/
def storeArchive (force : Bool) (pid : UInt32) (arch : ArchiveData) (answers : List Bool)
    (files : Files) : StoreResult :=
  match answers with
  | [] => ⟨files, .stopped⟩
  | false :: _ => ⟨files, .exited 2⟩
  | true :: answers =>
      let existing := (targets arch).filter fun t => (files t.1).isSome
      if existing ≠ [] ∧ force = false then ⟨files, .exited 1⟩
      else
        match writeTemps pid (targets arch) [] answers files with
        | .error result => result
        | .ok (temps, answers, files) =>
            replaceTargets temps ((archiveNames).zip temps) answers files

/-! ## Names -/

section Names

variable {pid : UInt32} {name : String}

/-- No name of a temporary file. -/
def Plain (pid : UInt32) (name : String) : Prop := ∀ other, name ≠ tempName other pid

theorem toList_tempName (name : String) (pid : UInt32) : (tempName name pid).toList =
    name.toList ++ (".tmp".toList ++ Nat.toDigits 10 pid.toNat) :=
  String.toList_ofList

theorem plain_of_last (hlast : ∀ d ∈ name.toList.getLast?, d.isDigit = false) :
    Plain pid name := by
  rintro other rfl
  have hne : Nat.toDigits 10 pid.toNat ≠ [] := Nat.toDigits_ne_nil
  have hdigit : ((Nat.toDigits 10 pid.toNat).getLast hne).isDigit = true :=
    Nat.isDigit_of_mem_toDigits (by decide) (by decide) (List.getLast_mem hne)
  have hend : (tempName other pid).toList.getLast? =
      some ((Nat.toDigits 10 pid.toNat).getLast hne) := by
    rw [toList_tempName, List.getLast?_append, List.getLast?_append,
      List.getLast?_eq_some_getLast hne]
    rfl
  rw [hlast _ hend] at hdigit
  cases hdigit

theorem plain_archive (hname : name ∈ archiveNames) : Plain pid name := by
  have hletters : ∀ n ∈ archiveNames, ∀ d ∈ n.toList.getLast?, d.isDigit = false := by decide
  exact plain_of_last (hletters name hname)

theorem tempName_inj {name other : String} (h : tempName name pid = tempName other pid) :
    name = other := by
  have hlists := congrArg String.toList h
  rw [toList_tempName, toList_tempName] at hlists
  exact String.toList_injective (List.append_cancel_right hlists)

end Names

/-! ## What becomes of the files -/

section Contents

variable {pid : UInt32} {name : String} {files : Files} {ts : List (String × List UInt8)}

theorem overwrite_congr {files' : Files} (h : files name = files' name) :
    overwrite files ts name = overwrite files' ts name := by
  induction ts generalizing files files' with
  | nil => exact h
  | cons t ts ih =>
      apply ih
      by_cases hname : name = t.1
      · subst hname
        simp
      · dsimp only
        rw [Function.update_of_ne hname, Function.update_of_ne hname, h]

theorem overwrite_other (hname : name ∉ ts.map Prod.fst) :
    overwrite files ts name = files name := by
  induction ts generalizing files with
  | nil => rfl
  | cons t ts ih =>
      rw [List.map_cons, List.mem_cons, not_or] at hname
      exact (ih hname.2).trans (Function.update_of_ne hname.1 _ _)

theorem overwrite_mem (hnames : (ts.map Prod.fst).Nodup) {t : String × List UInt8} (ht : t ∈ ts) :
    overwrite files ts t.1 = some t.2 := by
  induction ts generalizing files with
  | nil => cases ht
  | cons u ts ih =>
      rw [List.map_cons, List.nodup_cons] at hnames
      obtain rfl | ht := List.mem_cons.mp ht
      · exact (overwrite_other hnames.1).trans (Function.update_self _ _ _)
      · exact ih hnames.2 ht

/-- Cleaning up removes temporary files only. -/
theorem cleanup_other (hname : Plain pid name) {temps : List String} (answers : List Bool)
    (files : Files) (htemps : ∀ t ∈ temps, ∃ other, t = tempName other pid) :
    (cleanup temps answers files).1 name = files name := by
  induction temps generalizing answers files with
  | nil => rfl
  | cons t temps ih =>
      rw [List.forall_mem_cons] at htemps
      cases answers with
      | nil => rfl
      | cons ok answers =>
          obtain ⟨other, rfl⟩ := htemps.1
          refine (ih answers _ htemps.2).trans ?_
          split
          · rw [Function.update_of_ne (hname other)]
          · rfl

theorem failed_other (hname : Plain pid name) {temps : List String} (answers : List Bool)
    (files : Files) (htemps : ∀ t ∈ temps, ∃ other, t = tempName other pid) :
    (failed temps answers files).files name = files name := by
  have hcleanup := cleanup_other hname answers files htemps
  unfold failed
  split
  next hleft =>
    rw [hleft] at hcleanup
    exact hcleanup
  next hleft =>
    rw [hleft] at hcleanup
    exact hcleanup

/-- The temporary files that hold some contents. -/
def temporary (pid : UInt32) (ts : List (String × List UInt8)) : List (String × List UInt8) :=
  ts.map fun t => (tempName t.1 pid, t.2)

theorem mem_temporary {t : String} (ht : t ∈ (temporary pid ts).map Prod.fst) :
    ∃ other, t = tempName other pid := by
  obtain ⟨_, hin, rfl⟩ := List.mem_map.mp ht
  obtain ⟨u, _, rfl⟩ := List.mem_map.mp hin
  exact ⟨u.1, rfl⟩

theorem held_temporary (files : Files) (hnames : (ts.map Prod.fst).Nodup) :
    ∀ t ∈ ts, overwrite files (temporary pid ts) (tempName t.1 pid) = some t.2 := by
  intro t ht
  have hnodup : ((temporary pid ts).map Prod.fst).Nodup := by
    have hmap : (temporary pid ts).map Prod.fst =
        (ts.map Prod.fst).map fun name => tempName name pid := by
      simp [temporary]
    rw [hmap]
    exact hnames.map fun _ _ h => tempName_inj h
  exact @overwrite_mem files _ hnodup (tempName t.1 pid, t.2) (List.mem_map_of_mem ht)

theorem writeTemps_all (temps : List String) {answers : List Bool} (files : Files)
    (h : answers.take ts.length = List.replicate ts.length true) :
    writeTemps pid ts temps answers files =
      .ok (temps ++ (temporary pid ts).map Prod.fst, answers.drop ts.length,
        overwrite files (temporary pid ts)) := by
  induction ts generalizing temps answers files with
  | nil => simp [writeTemps, temporary, overwrite]
  | cons t ts ih =>
      cases answers with
      | nil => simp at h
      | cons ok answers =>
          obtain ⟨rfl, hrest⟩ : ok = true ∧ answers.take ts.length =
              List.replicate ts.length true := by
            simpa [List.replicate_succ] using h
          rw [writeTemps, ih _ _ hrest]
          simp [temporary, overwrite]

/-- Where not everything is written, the files stay as they were. -/
theorem writeTemps_broken (hname : Plain pid name) {temps : List String} {answers : List Bool}
    (files : Files) (htemps : ∀ t ∈ temps, ∃ other, t = tempName other pid)
    (h : answers.take ts.length ≠ List.replicate ts.length true) :
    ∃ result, writeTemps pid ts temps answers files = .error result ∧
      result.files name = files name := by
  induction ts generalizing temps answers files with
  | nil => simp at h
  | cons t ts ih =>
      rcases answers with _ | ⟨_ | _, answers⟩
      · exact ⟨_, rfl, rfl⟩
      · refine ⟨_, rfl, failed_other hname answers files ?_⟩
        exact List.forall_mem_cons.mpr ⟨⟨t.1, rfl⟩, htemps⟩
      · have hrest : answers.take ts.length ≠ List.replicate ts.length true := by
          simpa [List.replicate_succ] using h
        have htemps' : ∀ u ∈ temps ++ [tempName t.1 pid], ∃ other, u = tempName other pid := by
          intro u hu
          obtain hu | hu := List.mem_append.mp hu
          · exact htemps u hu
          · exact ⟨t.1, List.mem_singleton.mp hu⟩
        obtain ⟨result, hresult, hsame⟩ :=
          ih (Function.update files (tempName t.1 pid) (some t.2)) htemps' hrest
        refine ⟨result, hresult, hsame.trans ?_⟩
        rw [Function.update_of_ne (hname t.1)]

/-- How many of some steps succeed before one does not. -/
def succeed (n : Nat) (answers : List Bool) : Nat := ((answers.take n).takeWhile id).length

theorem replaceTargets_files (hname : Plain pid name) {temps : List String}
    (htemps : ∀ t ∈ temps, ∃ other, t = tempName other pid) {answers : List Bool}
    (hnames : (ts.map Prod.fst).Nodup) (hplain : ∀ t ∈ ts, Plain pid t.1)
    (hheld : ∀ t ∈ ts, files (tempName t.1 pid) = some t.2) :
    (replaceTargets temps (ts.map fun t => (t.1, tempName t.1 pid)) answers files).files name =
      overwrite files (ts.take (succeed ts.length answers)) name := by
  induction ts generalizing answers files with
  | nil => rfl
  | cons t ts ih =>
      rw [List.map_cons, List.nodup_cons] at hnames
      rw [List.forall_mem_cons] at hplain hheld
      rcases answers with _ | ⟨_ | _, answers⟩
      · rfl
      · exact failed_other hname answers files htemps
      · have hcount : succeed (t :: ts).length (true :: answers) =
            succeed ts.length answers + 1 := by
          simp [succeed]
        have hheld' : ∀ u ∈ ts, Function.update (Function.update files t.1
            (files (tempName t.1 pid))) (tempName t.1 pid) none (tempName u.1 pid) =
            some u.2 := by
          intro u hu
          have hne : u.1 ≠ t.1 := fun heq => hnames.1 (heq ▸ List.mem_map_of_mem hu)
          rw [Function.update_of_ne fun heq => hne (tempName_inj heq),
            Function.update_of_ne fun heq => hplain.1 u.1 heq.symm, hheld.2 u hu]
        rw [hcount, List.take_succ_cons]
        refine (ih hnames.2 hplain.2 hheld').trans (overwrite_congr ?_)
        rw [Function.update_of_ne (hname t.1), hheld.1]

end Contents

/-! ## Cuts -/

section Cuts

variable {pid : UInt32} {arch : ArchiveData} {before : Files}

theorem names_targets (arch : ArchiveData) : (targets arch).map Prod.fst = archiveNames := rfl

theorem names_nodup : archiveNames.Nodup := by decide

/-- How many files are replaced: the directory is there, all is written, and some renamings
succeed before one does not. -/
def renamed (answers : List Bool) : Nat :=
  if answers.take 4 = List.replicate 4 true then succeed 3 (answers.drop 4) else 0

/-- What the three files are, wherever the command ends. -/
theorem storeArchive_files (arch : ArchiveData) (answers : List Bool) (before : Files)
    {name : String} (hname : name ∈ archiveNames) :
    (storeArchive true pid arch answers before).files name =
      overwrite before ((targets arch).take (renamed answers)) name := by
  have hplain : Plain pid name := plain_archive hname
  have hnames : ((targets arch).map Prod.fst).Nodup := names_nodup
  rcases answers with _ | ⟨_ | _, answers⟩
  · rfl
  · rfl
  · have hforce : ¬(((targets arch).filter fun t => (before t.1).isSome) ≠ [] ∧ true = false) :=
      fun h => nomatch h.2
    rw [storeArchive, if_neg hforce]
    by_cases hwritten : answers.take (targets arch).length =
        List.replicate (targets arch).length true
    · have hrenamed : renamed (true :: answers) =
          succeed (targets arch).length (answers.drop (targets arch).length) := by
        have hall : (true :: answers).take 4 = List.replicate 4 true :=
          congrArg (List.cons true) hwritten
        rw [renamed, if_pos hall]
        rfl
      have hplains : ∀ t ∈ targets arch, Plain pid t.1 := fun t ht =>
        plain_archive (names_targets arch ▸ List.mem_map_of_mem ht)
      have hother : overwrite before (temporary pid (targets arch)) name = before name :=
        overwrite_other fun hin => by
          obtain ⟨other, hother⟩ := mem_temporary hin
          exact hplain other hother
      rw [writeTemps_all [] before hwritten, hrenamed]
      exact (replaceTargets_files hplain (fun t ht => mem_temporary ht) hnames hplains
        (held_temporary before hnames)).trans (overwrite_congr hother)
    · obtain ⟨result, hresult, hsame⟩ :=
        writeTemps_broken hplain before (List.forall_mem_nil _) hwritten
      have hrenamed : renamed (true :: answers) = 0 := by
        rw [renamed, if_neg]
        intro hall
        exact hwritten (List.cons.inj hall).2
      rw [hresult, hrenamed]
      exact hsame

/-- Loading reads the three files; there is one event on each line. -/
def loadDir (order : MapOrder) (label : String) (files : Files) : Except Fault SessionData :=
  match (files "manifest.json").bind Utf8.decode, files "samples.bin",
      (files "events.jsonl").bind Utf8.decode with
  | some manifest, some samples, some events =>
      loadArchiveV2 order label (.ofList manifest) samples ((Lines.lines events).map .ofList)
  | _, _, _ => .error (.err "incomplete archive")

theorem loadDir_congr (order : MapOrder) (label : String) {files files' : Files}
    (h : ∀ name ∈ archiveNames, files name = files' name) :
    loadDir order label files = loadDir order label files' := by
  rw [loadDir, loadDir, h "manifest.json" (by decide), h "samples.bin" (by decide),
    h "events.jsonl" (by decide)]

/-- The old archive or the new one is loaded, or none, and one of them is there as a whole. -/
structure AllOrNothing (order : MapOrder) (label : String) (before : Files) (arch : ArchiveData)
    (after : Files) : Prop where
  loads : loadDir order label after = loadDir order label before ∨
    loadDir order label after = loadDir order label (overwrite before (targets arch)) ∨
    ∃ fault, loadDir order label after = .error fault
  kept : (∀ name ∈ archiveNames, after name = before name) ∨
    ∀ t ∈ targets arch, after t.1 = some t.2

/-- The files that have been replaced are as they were before, or those that have not been
replaced are already as they should be. -/
def Unmixed (before : Files) (arch : ArchiveData) (answers : List Bool) : Prop :=
  (∀ t ∈ (targets arch).take (renamed answers), before t.1 = some t.2) ∨
    ∀ t ∈ (targets arch).drop (renamed answers), before t.1 = some t.2

theorem old_iff {ts : List (String × List UInt8)} (hnames : (ts.map Prod.fst).Nodup) (k : Nat) :
    (∀ name ∈ ts.map Prod.fst, overwrite before (ts.take k) name = before name) ↔
      ∀ t ∈ ts.take k, before t.1 = some t.2 := by
  have htake : ((ts.take k).map Prod.fst).Nodup :=
    hnames.sublist ((List.take_sublist k ts).map Prod.fst)
  constructor
  · intro h t ht
    rw [← h t.1 (List.mem_map_of_mem (List.mem_of_mem_take ht)), overwrite_mem htake ht]
  · intro h name _
    by_cases hin : name ∈ (ts.take k).map Prod.fst
    · obtain ⟨t, ht, rfl⟩ := List.mem_map.mp hin
      rw [overwrite_mem htake ht, h t ht]
    · exact overwrite_other hin

theorem new_iff {ts : List (String × List UInt8)} (hnames : (ts.map Prod.fst).Nodup) (k : Nat) :
    (∀ t ∈ ts, overwrite before (ts.take k) t.1 = some t.2) ↔
      ∀ t ∈ ts.drop k, before t.1 = some t.2 := by
  have hsplit := List.take_append_drop k ts
  rw [← hsplit, List.map_append, List.nodup_append] at hnames
  obtain ⟨htake, _, hapart⟩ := hnames
  have hdrop : ∀ t ∈ ts.drop k, overwrite before (ts.take k) t.1 = before t.1 := fun t ht =>
    overwrite_other fun hin => hapart _ hin _ (List.mem_map_of_mem ht) rfl
  constructor
  · intro h t ht
    rw [← hdrop t ht, h t (List.mem_of_mem_drop ht)]
  · intro h t ht
    rw [← hsplit, List.mem_append] at ht
    obtain ht | ht := ht
    · exact overwrite_mem htake ht
    · rw [hdrop t ht, h t ht]

/-- Replacing an archive is all or nothing exactly if it does not end between files that differ. -/
theorem allOrNothing_iff (order : MapOrder) (label : String) (pid : UInt32) (host : Host)
    (name source : String) (s : SessionData) (answers : List Bool) (before : Files) :
    AllOrNothing order label before (migrate host name source s)
        (storeArchive true pid (migrate host name source s) answers before).files ↔
      Unmixed before (migrate host name source s) answers := by
  generalize migrate host name source s = arch
  have hfiles : ∀ n ∈ archiveNames, (storeArchive true pid arch answers before).files n =
      overwrite before ((targets arch).take (renamed answers)) n :=
    fun n hn => storeArchive_files arch answers before hn
  have hnames : ((targets arch).map Prod.fst).Nodup := names_nodup
  have hold := @old_iff before _ hnames (renamed answers)
  have hnew := @new_iff before _ hnames (renamed answers)
  have hkept : ((∀ n ∈ archiveNames,
      (storeArchive true pid arch answers before).files n = before n) ∨
      ∀ t ∈ targets arch, (storeArchive true pid arch answers before).files t.1 = some t.2) ↔
      Unmixed before arch answers := by
    rw [Unmixed, ← hold, ← hnew]
    refine or_congr (forall₂_congr fun n hn => ?_) (forall₂_congr fun t ht => ?_)
    · rw [hfiles n hn]
    · rw [hfiles t.1 (names_targets arch ▸ List.mem_map_of_mem ht)]
  constructor
  · exact fun h => hkept.mp h.kept
  · intro h
    refine ⟨?_, hkept.mpr h⟩
    obtain hsame | hnew := hkept.mpr h
    · exact Or.inl (loadDir_congr order label hsame)
    · refine Or.inr (Or.inl (loadDir_congr order label fun n hn => ?_))
      obtain ⟨t, ht, rfl⟩ := List.mem_map.mp (names_targets arch ▸ hn)
      rw [hnew t ht, overwrite_mem hnames ht]

/-! ## Mixtures -/

/-- Loading does not compare the events with anything. -/
theorem loadArchiveV2_events {order : MapOrder} {label manifest : String} {bytes : List UInt8}
    {events : List String} {s : SessionData}
    (h : loadArchiveV2 order label manifest bytes events = .ok s) (events' : List String) :
    loadArchiveV2 order label manifest bytes events' =
      .ok { s with events := events'.filterMap readEvent } := by
  unfold loadArchiveV2 at h ⊢
  cases hparse : Json.parse manifest with
  | error e => simp only [hparse, reduceCtorEq] at h
  | ok m =>
      simp only [hparse] at h ⊢
      split at h
      · cases h
      next hformat =>
        rw [if_neg hformat]
        simp only [bind_eq_ok] at h ⊢
        obtain ⟨table, htable, store, hstore, history, hhistory, hs⟩ := h
        obtain rfl := Except.ok.inj hs
        exact ⟨table, htable, store, hstore, history, hhistory, rfl⟩

/-- A directory into which an archive has been written as a whole. -/
theorem loadDir_stored (order : MapOrder) (label : String) (before : Files) (arch : ArchiveData) :
    loadDir order label (overwrite before (targets arch)) =
      loadArchiveV2 order label arch.manifest arch.samples
        ((Lines.lines ("\n".intercalate arch.events).toList).map .ofList) := by
  have hall : ∀ t ∈ targets arch, overwrite before (targets arch) t.1 = some t.2 :=
    fun t ht => overwrite_mem (names_targets arch ▸ names_nodup) ht
  simp only [targets, List.forall_mem_cons] at hall
  obtain ⟨hmanifest, hsamples, hevents, -⟩ := hall
  simp only [loadDir, targets, hmanifest, hsamples, hevents, Option.bind_some,
    Utf8.decode_encode, String.ofList_toList]

/-- Where only the last renaming is missing, the new session is loaded with the old events. -/
theorem old_events_loaded {order : MapOrder} {label : String} {before : Files} {s : SessionData}
    {bytes : List UInt8} {text : List Char} (arch : ArchiveData) (pid : UInt32)
    (hnew : loadDir order label (overwrite before (targets arch)) = .ok s)
    (hevents : before "events.jsonl" = some bytes) (htext : Utf8.decode bytes = some text) :
    loadDir order label (storeArchive true pid arch (List.replicate 6 true) before).files =
      .ok { s with events := ((Lines.lines text).map .ofList).filterMap readEvent } := by
  have hfiles : ∀ n ∈ archiveNames,
      (storeArchive true pid arch (List.replicate 6 true) before).files n =
        overwrite before ((targets arch).take 2) n :=
    fun n hn => storeArchive_files arch _ before hn
  have htwo : ∀ t ∈ (targets arch).take 2, overwrite before ((targets arch).take 2) t.1 = some t.2 :=
    fun t ht => overwrite_mem
      ((names_targets arch ▸ names_nodup).sublist ((List.take_sublist 2 _).map Prod.fst)) ht
  have hkept : overwrite before ((targets arch).take 2) "events.jsonl" = some bytes := by
    refine (overwrite_other ?_).trans hevents
    have hnot : "events.jsonl" ∉ ["manifest.json", "samples.bin"] := by decide
    exact hnot
  simp only [targets, List.forall_mem_cons, List.take_succ_cons, List.take_zero] at htwo hkept
  obtain ⟨hmanifest, hsamples, -⟩ := htwo
  rw [loadDir_stored] at hnew
  rw [loadDir_congr order label hfiles]
  simp only [loadDir, targets, List.take_succ_cons, List.take_zero, hmanifest, hsamples, hkept,
    Option.bind_some, Utf8.decode_encode, String.ofList_toList, htext]
  exact loadArchiveV2_events hnew _

/-- Of the files only the third one gives the events. -/
theorem events_reloaded (order : MapOrder) (host : Host) (label name source : String)
    (s : SessionData) (history : List (Binary64 × Policy)) :
    (reloaded order host label name source s history).events =
      (migrate host name source s).events.filterMap readEvent :=
  rfl

/-- A run with one marker. -/
def markedRun (wallMs : UInt64) (detail : String) : SessionData :=
  { (default : SessionData) with
    wallBaseMs := wallMs
    events := [⟨wallMs, 0, "marker", detail⟩] }

/-- A host on which nothing is hashed. -/
def anyHost : Host := ⟨"workstation", fun _ _ _ => 0⟩

/-- The directory that holds the archive of a run only. -/
def storedRun (s : SessionData) : Files :=
  overwrite (fun _ => none) (targets (migrate anyHost "run" "logs" s))

theorem samples_markedRun (wallMs : UInt64) (detail : String) :
    samples (dynTable (markedRun wallMs detail)) (markedRun wallMs detail) = [] := rfl

theorem fits_markedRun (wallMs : UInt64) (detail : String) : Fits (markedRun wallMs detail) := by
  have hshort : ((dynSeries default).map Prod.fst).length ≤ 64536 := by decide
  exact (List.dedup_sublist _).length_le.trans hshort

theorem plainNames_markedRun (wallMs : UInt64) (detail : String) :
    PlainNames (markedRun wallMs detail) where
  gpus := List.forall_mem_nil _
  procs := List.forall_mem_nil _
  exits := List.forall_mem_nil _
  cores := List.forall_mem_nil _
  totals := List.forall_mem_nil _
  displays := List.forall_mem_nil _
  sensors := List.forall_mem_nil _
  throughput := List.forall_mem_nil _
  adapters := List.forall_mem_nil _
  wifi := List.forall_mem_nil _
  usbClasses := List.forall_mem_nil _
  powerDevices := List.forall_mem_nil _

theorem printable_markedRun (wallMs : UInt64) (detail : String) :
    Printable anyHost "run" "logs" (markedRun wallMs detail) where
  machineId := by decide
  label := by decide
  source := by decide
  names := plainNames_markedRun wallMs detail
  adapters := List.forall_mem_nil _
  wifi := List.forall_mem_nil _
  policies := List.forall_mem_nil _
  battery := by
    have hnone : PrintableBattery default := ⟨by decide, by decide, List.forall_mem_nil _⟩
    exact hnone
  footer := nofun

theorem events_migrate (wallMs : UInt64) (detail : String) (host : Host) (name source : String) :
    ((Lines.lines ("\n".intercalate
        (migrate host name source (markedRun wallMs detail)).events).toList).map .ofList) =
      (migrate host name source (markedRun wallMs detail)).events := by
  have hevents : (migrate host name source (markedRun wallMs detail)).events =
      [.ofList (eventDoc ⟨wallMs, 0, "marker", detail⟩).text] := rfl
  have hnewline := Doc.newline_not_mem_text (eventDoc ⟨wallMs, 0, "marker", detail⟩)
  have hne : (eventDoc ⟨wallMs, 0, "marker", detail⟩).text ≠ [] := by
    simp [eventDoc, Doc.text]
  rw [hevents, String.intercalate_singleton, String.toList_ofList,
    Lines.lines_unterminated hnewline, if_neg hne, List.map_singleton]

theorem readEvents_markedRun (wallMs : UInt64) {detail : String} (hdetail : EndsPlain detail)
    (host : Host) (name source : String) :
    (migrate host name source (markedRun wallMs detail)).events.filterMap readEvent =
      [⟨asU64 (ofU64 wallMs), asU64 (ofU64 0), "marker", detail⟩] := by
  have hevents : (migrate host name source (markedRun wallMs detail)).events =
      [.ofList (eventDoc ⟨wallMs, 0, "marker", detail⟩).text] := rfl
  have hkind : EndsPlain "marker" := by decide
  have hread := readEvent_eventDoc ⟨wallMs, 0, "marker", detail⟩
  rw [if_pos ⟨hkind, hdetail⟩] at hread
  rw [hevents, List.filterMap_cons, hread, List.filterMap_nil]

/-- The archive of a marked run is loaded. -/
theorem loadDir_markedRun (order : MapOrder) (before : Files) (wallMs : UInt64) (detail : String) :
    loadDir order "run" (overwrite before (targets
        (migrate anyHost "run" "logs" (markedRun wallMs detail)))) =
      .ok (reloaded order anyHost "run" "run" "logs" (markedRun wallMs detail) []) := by
  rw [loadDir_stored, events_migrate]
  refine (load_migrate order anyHost "run" "run" "logs" _ _).mpr
    ⟨printable_markedRun wallMs detail, fits_markedRun wallMs detail, ?_, [], rfl, rfl⟩
  rw [samples_markedRun]
  exact List.forall_mem_nil _

/-- The new run is loaded with the marker of the old one. -/
theorem mixture_loaded :
    ¬ AllOrNothing asFilled "run" (storedRun (markedRun 1000 "lid closed"))
      (migrate anyHost "run" "logs" (markedRun 2000 "charger out"))
      (storeArchive true 7 (migrate anyHost "run" "logs" (markedRun 2000 "charger out"))
        (List.replicate 6 true) (storedRun (markedRun 1000 "lid closed"))).files := by
  have hbefore := loadDir_markedRun asFilled (fun _ => none) 1000 "lid closed"
  have hnew := loadDir_markedRun asFilled (storedRun (markedRun 1000 "lid closed")) 2000 "charger out"
  have hheld : storedRun (markedRun 1000 "lid closed") "events.jsonl" = some _ :=
    overwrite_mem (t := ("events.jsonl", _)) (names_targets _ ▸ names_nodup)
      (List.mem_cons_of_mem _ (List.mem_cons_of_mem _ List.mem_cons_self))
  have hafter := old_events_loaded _ 7 hnew hheld (Utf8.decode_encode _)
  rw [events_migrate] at hafter
  intro h
  obtain hold | hnew' | ⟨fault, herror⟩ := h.loads
  · rw [hafter, storedRun, hbefore] at hold
    have hwall := congrArg SessionData.wallBaseMs (Except.ok.inj hold)
    have hapart : asU64 (ofU64 2000) ≠ asU64 (ofU64 1000) := by decide +kernel
    exact hapart hwall
  · rw [hafter, hnew] at hnew'
    have hevents := congrArg SessionData.events (Except.ok.inj hnew')
    rw [events_reloaded, readEvents_markedRun 2000 (by decide)] at hevents
    dsimp only at hevents
    rw [readEvents_markedRun 1000 (by decide)] at hevents
    have hdetails : ["lid closed"] = ["charger out"] := congrArg (List.map EventRec.detail) hevents
    exact absurd hdetails (by decide)
  · rw [hafter] at herror
    cases herror

end Cuts

end PowerForensics.Cli
