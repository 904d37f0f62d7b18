import PowerForensics.Core.JsonText
import PowerForensics.Core.SessionFaults

/-! # How loading a session ends

A load ends with a session, with the number of a line that is no JSON, or in a panic.
The only panic is the one of cutting a reason inside a character; lines behind the first
line that is no JSON are never looked at.
-/

namespace PowerForensics.Session

open Json

/-! ## Cutting a reason -/

/-- A text can be cut to a number of bytes if it is not longer, or if so many bytes are the end
of one of its characters. -/
theorem truncate_isSome (n : Nat) (cs : List Char) :
    (truncate n cs).isSome = true ↔
      (cs.map Char.utf8Size).sum ≤ n ∨ ∃ front, front <+: cs ∧ (front.map Char.utf8Size).sum = n := by
  induction cs generalizing n with
  | nil => cases n <;> simp [truncate]
  | cons c cs ih =>
      cases n with
      | zero =>
          simp only [truncate, Option.isSome_some, true_iff]
          exact Or.inr ⟨[], List.nil_prefix, rfl⟩
      | succ n =>
          rw [truncate, List.map_cons, List.sum_cons]
          split
          next hfits =>
            rw [Option.isSome_map, ih]
            constructor
            · rintro (hle | ⟨front, hfront, hsum⟩)
              · exact Or.inl (by omega)
              · refine Or.inr ⟨c :: front, List.cons_prefix_cons.mpr ⟨rfl, hfront⟩, ?_⟩
                rw [List.map_cons, List.sum_cons]
                omega
            · rintro (hle | ⟨front, hfront, hsum⟩)
              · exact Or.inl (by omega)
              · cases front with
                | nil => cases hsum
                | cons d front =>
                    obtain ⟨rfl, htail⟩ := List.cons_prefix_cons.mp hfront
                    rw [List.map_cons, List.sum_cons] at hsum
                    exact Or.inr ⟨front, htail, by omega⟩
          next hlarge =>
            simp only [Option.isSome_none, Bool.false_eq_true, false_iff, not_or, not_exists,
              not_and]
            refine ⟨by omega, fun front hfront hsum => ?_⟩
            cases front with
            | nil => cases hsum
            | cons d front =>
                obtain ⟨rfl, -⟩ := List.cons_prefix_cons.mp hfront
                rw [List.map_cons, List.sum_cons] at hsum
                omega

/-! ## The faults of a record -/

section Faults

variable {α β : Type}

/-- The call fails, if it does, with a panic. -/
def OnlyPanics (x : Except Fault α) : Prop := ∀ message, x ≠ .error (.err message)

theorem onlyPanics_ok (a : α) : OnlyPanics (.ok a : Except Fault α) := nofun

theorem onlyPanics_pure (a : α) : OnlyPanics (pure a : Except Fault α) := nofun

theorem OnlyPanics.bind {x : Except Fault α} {f : α → Except Fault β} (hx : OnlyPanics x)
    (hf : ∀ a, OnlyPanics (f a)) : OnlyPanics (x >>= f) := by
  cases x with
  | ok a => exact hf a
  | error fault =>
      intro message heq
      exact hx message (by cases heq; rfl)

theorem OnlyPanics.mapM {f : α → Except Fault β} (hf : ∀ a, OnlyPanics (f a)) (l : List α) :
    OnlyPanics (l.mapM f) := by
  induction l with
  | nil => exact onlyPanics_pure _
  | cons a l ih =>
      rw [List.mapM_cons]
      exact (hf a).bind fun b => ih.bind fun bs => onlyPanics_pure _

end Faults

section Records

variable (v : JVal) (stamp : ClockStamp) (s : SessionData)

theorem internReason_onlyPanics (reason : String) : OnlyPanics (internReason reason) := by
  unfold internReason
  split
  · exact onlyPanics_ok _
  · cases truncate reasonLimit reason.toList with
    | some cs => exact onlyPanics_ok _
    | none => exact nofun

theorem evInner_onlyPanics (inner : Option JVal) (source : String) :
    OnlyPanics (evInner inner source stamp) := by
  unfold evInner
  split
  · exact onlyPanics_ok _
  · dsimp only
    split
    · split
      · exact onlyPanics_ok _
      · exact (internReason_onlyPanics _).bind fun _ => onlyPanics_pure _
    · exact (internReason_onlyPanics _).bind fun _ => onlyPanics_pure _

theorem ev_onlyPanics (obj : JVal) (key source : String) : OnlyPanics (ev obj key source stamp) :=
  evInner_onlyPanics stamp _ source

theorem evBool_onlyPanics (obj : JVal) (key source : String) :
    OnlyPanics (evBool obj key source stamp) := by
  unfold evBool
  split
  · split
    · exact onlyPanics_ok _
    · exact evInner_onlyPanics stamp _ source
  · exact onlyPanics_ok _

theorem plainNum_onlyPanics (obj : JVal) (key source : String) :
    OnlyPanics (plainNum obj key source stamp) := by
  unfold plainNum
  split
  · split
    · exact onlyPanics_ok _
    · exact evInner_onlyPanics stamp _ source
  · exact onlyPanics_ok _

theorem loadCpuSub_onlyPanics (parent : Option JVal) (key : String) :
    OnlyPanics (loadCpuSub parent key stamp) := by
  cases parent with
  | none => exact onlyPanics_ok _
  | some o => exact ev_onlyPanics stamp o key "cpu"

theorem policyPair_onlyPanics (key : String) : OnlyPanics (policyPair v key stamp) := by
  have hside : ∀ which, OnlyPanics (policySide v key which stamp) := by
    intro which
    unfold policySide
    split
    · exact evInner_onlyPanics stamp _ "os"
    · exact onlyPanics_ok _
  exact (hside "ac").bind fun _ => (hside "dc").bind fun _ => onlyPanics_pure _

/-! Each collector has a loader, and none of them returns an error. -/

theorem loadBattery_onlyPanics : OnlyPanics (loadBattery v stamp s) := by
  have hev := ev_onlyPanics stamp v
  unfold loadBattery
  refine (hev _ _).bind fun _ => (hev _ _).bind fun _ => (hev _ _).bind fun _ => ?_
  refine (hev _ _).bind fun _ => (evBool_onlyPanics stamp v _ _).bind fun _ => ?_
  refine (hev _ _).bind fun _ => (hev _ _).bind fun _ => (hev _ _).bind fun _ => ?_
  exact onlyPanics_pure _

theorem loadCpu_onlyPanics : OnlyPanics (loadCpu v stamp s) := by
  have hev := ev_onlyPanics stamp
  have htotal : ∀ totals key, OnlyPanics (loadTotal totals stamp key) := fun totals key =>
    (evInner_onlyPanics stamp _ "cpu").bind fun _ => onlyPanics_pure _
  have hcore : ∀ c, OnlyPanics (loadCore stamp c) := fun c =>
    (hev c _ _).bind fun _ => (hev c _ _).bind fun _ => (hev c _ _).bind fun _ =>
      (hev c _ _).bind fun _ => onlyPanics_pure _
  have hsub := loadCpuSub_onlyPanics stamp
  unfold loadCpu
  refine (OnlyPanics.mapM (htotal _) _).bind fun _ => (OnlyPanics.mapM hcore _).bind fun _ => ?_
  refine (hsub _ _).bind fun _ => (hsub _ _).bind fun _ => (hsub _ _).bind fun _ => ?_
  refine (hsub _ _).bind fun _ => (hsub _ _).bind fun _ => (hsub _ _).bind fun _ => ?_
  exact onlyPanics_pure _

theorem loadAdapter_onlyPanics (a : JVal) : OnlyPanics (loadAdapter stamp a) := by
  have hev := ev_onlyPanics stamp
  have hpid : ∀ p, OnlyPanics (loadTopPid stamp p) := fun p =>
    (hev p _ _).bind fun _ => onlyPanics_pure _
  unfold loadAdapter
  refine (OnlyPanics.mapM hpid _).bind fun _ => (hev a _ _).bind fun _ => ?_
  refine (hev a _ _).bind fun _ => (hev a _ _).bind fun _ => (hev a _ _).bind fun _ => ?_
  refine (hev a _ _).bind fun _ => (hev a _ _).bind fun _ => (hev a _ _).bind fun _ => ?_
  refine (hev a _ _).bind fun _ => (hev a _ _).bind fun _ => (hev a _ _).bind fun _ => ?_
  exact (hev a _ _).bind fun _ => onlyPanics_pure _

theorem loadGpu_onlyPanics : OnlyPanics (loadGpu v stamp s) := by
  unfold loadGpu
  exact (OnlyPanics.mapM (loadAdapter_onlyPanics stamp) _).bind fun _ => onlyPanics_pure _

theorem loadProcs_onlyPanics : OnlyPanics (loadProcs v stamp s) := by
  have hproc : ∀ p, OnlyPanics (loadProc stamp p) := fun p =>
    (ev_onlyPanics stamp p _ _).bind fun _ => onlyPanics_pure _
  unfold loadProcs
  exact (OnlyPanics.mapM hproc _).bind fun _ => onlyPanics_pure _

theorem loadDisplay_onlyPanics : OnlyPanics (loadDisplay v stamp s) := by
  have hentry : ∀ d, OnlyPanics (loadDisplayEntry stamp d) := fun d =>
    (ev_onlyPanics stamp d _ _).bind fun _ => onlyPanics_pure _
  unfold loadDisplay
  exact (OnlyPanics.mapM hentry _).bind fun _ => onlyPanics_pure _

theorem loadNet_onlyPanics : OnlyPanics (loadNet v stamp s) := by
  have hev := ev_onlyPanics stamp
  have hplain := plainNum_onlyPanics stamp
  have hadapter : ∀ a, OnlyPanics (loadNetAdapter stamp a) := fun a =>
    (hplain a _ _).bind fun _ => (hplain a _ _).bind fun _ => (hplain a _ _).bind fun _ =>
      (hplain a _ _).bind fun _ => onlyPanics_pure _
  have hthroughput : ∀ p, OnlyPanics (loadThroughput stamp p) := fun p =>
    (hev p _ _).bind fun _ => (hev p _ _).bind fun _ => onlyPanics_pure _
  have hwifi : ∀ w, OnlyPanics (loadWifi stamp w) := fun w =>
    (hev w _ _).bind fun _ => onlyPanics_pure _
  unfold loadNet
  refine (OnlyPanics.mapM hadapter _).bind fun _ => ?_
  refine (OnlyPanics.mapM hthroughput _).bind fun _ => (OnlyPanics.mapM hwifi _).bind fun _ => ?_
  exact (hev v _ _).bind fun _ => (hev v _ _).bind fun _ => onlyPanics_pure _

theorem loadStorage_onlyPanics : OnlyPanics (loadStorage v stamp s) := by
  have hev := ev_onlyPanics stamp
  unfold loadStorage
  refine (hev _ _ _).bind fun _ => (hev _ _ _).bind fun _ => (hev _ _ _).bind fun _ => ?_
  exact onlyPanics_pure _

theorem loadUsb_onlyPanics : OnlyPanics (loadUsb v stamp s) := by
  have hclass : ∀ g, OnlyPanics (loadUsbClass stamp g) := by
    intro g
    unfold loadUsbClass
    dsimp only
    split
    · exact (ev_onlyPanics stamp g _ _).bind fun _ => onlyPanics_pure _
    · exact onlyPanics_pure _
    · exact onlyPanics_pure _
  unfold loadUsb
  exact (OnlyPanics.mapM hclass _).bind fun _ => onlyPanics_pure _

theorem loadSelfmon_onlyPanics : OnlyPanics (loadSelfmon v stamp s) := by
  have hev := ev_onlyPanics stamp v
  unfold loadSelfmon
  refine (hev _ _).bind fun _ => (hev _ _).bind fun _ => (hev _ _).bind fun _ => ?_
  refine (hev _ _).bind fun _ => (hev _ _).bind fun _ => (hev _ _).bind fun _ => ?_
  exact (hev _ _).bind fun _ => onlyPanics_pure _

theorem loadPolicy_onlyPanics : OnlyPanics (loadPolicy v stamp s) := by
  have hpair := policyPair_onlyPanics v stamp
  unfold loadPolicy
  refine (hpair _).bind fun _ => (hpair _).bind fun _ => (hpair _).bind fun _ => ?_
  refine (hpair _).bind fun _ => (hpair _).bind fun _ => (hpair _).bind fun _ => ?_
  refine (hpair _).bind fun _ => (hpair _).bind fun _ => (hpair _).bind fun _ => ?_
  exact (ev_onlyPanics stamp v _ _).bind fun _ => onlyPanics_pure _

/-- The loader of a collector returns no error. -/
theorem collectorLoader_onlyPanics {collector : String}
    {load : JVal → ClockStamp → SessionData → Except Fault SessionData}
    (hload : collectorLoader collector = some load) : OnlyPanics (load v stamp s) := by
  cases hload using collectorLoader_cases with
  | battery => exact loadBattery_onlyPanics v stamp s
  | cpu => exact loadCpu_onlyPanics v stamp s
  | gpu => exact loadGpu_onlyPanics v stamp s
  | procs => exact loadProcs_onlyPanics v stamp s
  | display => exact loadDisplay_onlyPanics v stamp s
  | net => exact loadNet_onlyPanics v stamp s
  | storage => exact loadStorage_onlyPanics v stamp s
  | usb => exact loadUsb_onlyPanics v stamp s
  | selfmon => exact loadSelfmon_onlyPanics v stamp s
  | policy => exact loadPolicy_onlyPanics v stamp s

theorem loadRecord_onlyPanics : OnlyPanics (loadRecord v s) := by
  unfold loadRecord
  dsimp only
  split
  next load hload =>
    obtain ⟨collector, -, hcollector⟩ := Option.bind_eq_some_iff.mp hload
    exact collectorLoader_onlyPanics v _ _ hcollector
  · split
    · exact onlyPanics_ok _
    · split <;> exact onlyPanics_ok _

end Records

/-! ## Whole sessions -/

/-- A line that is blank or JSON. -/
def readable (line : List Char) : Bool :=
  Lines.trim line = [] ∨ (parse (String.ofList (Lines.trim line))).isOk

/-- The load of lines ends with a session, or with the number of a line that is no JSON. -/
def Answers (number : Nat) (ls : List (List Char)) (result : Except Fault SessionData) : Prop :=
  (∃ s, result = .ok s) ∨
    ∃ i line e, ls[i]? = some line ∧ Lines.trim line ≠ [] ∧
      parse (String.ofList (Lines.trim line)) = .error e ∧
      result = .error (.err s!"line {number + i}: {e}")

theorem Answers.later {number : Nat} {line : List Char} {ls : List (List Char)}
    {result : Except Fault SessionData} (hline : readable line = true) :
    Answers number (line :: ls) result ↔ Answers (number + 1) ls result := by
  unfold Answers
  apply or_congr_right
  constructor
  · rintro ⟨i, bad, e, hget, hne, hparse, hresult⟩
    cases i with
    | zero =>
        obtain rfl := Option.some.inj hget
        simp [readable, hne, hparse] at hline
    | succ i =>
        have hnumber : number + (i + 1) = number + 1 + i := by omega
        exact ⟨i, bad, e, hget, hne, hparse, by rw [hresult, hnumber]⟩
  · rintro ⟨i, bad, e, hget, hne, hparse, hresult⟩
    have hnumber : number + (i + 1) = number + 1 + i := by omega
    exact ⟨i + 1, bad, e, hget, hne, hparse, by rw [hresult, hnumber]⟩

theorem loadLines_answers_iff (number : Nat) (ls : List (List Char)) (s : SessionData) :
    Answers number ls (loadLines number ls s) ↔ ∀ line ∈ ls.takeWhile readable, Loadable line := by
  induction ls generalizing number s with
  | nil =>
      simp only [List.takeWhile_nil, List.not_mem_nil, false_imp_iff, implies_true, iff_true]
      exact Or.inl ⟨s, rfl⟩
  | cons line ls ih =>
      rw [loadLines]
      by_cases hblank : Lines.trim line = []
      · have hreadable : readable line = true := by simp [readable, hblank]
        have hloadable : Loadable line := fun hne => absurd hblank hne
        rw [if_pos hblank, Answers.later hreadable, ih, List.takeWhile_cons_of_pos hreadable,
          List.forall_mem_cons, and_iff_right hloadable]
      · rw [if_neg hblank]
        cases hparse : parse (String.ofList (Lines.trim line)) with
        | error e =>
            have hreadable : ¬ readable line = true := by simp [readable, hblank, hparse]
            rw [List.takeWhile_cons_of_neg hreadable]
            simp only [List.not_mem_nil, false_imp_iff, implies_true, iff_true]
            exact Or.inr ⟨0, line, e, rfl, hblank, hparse, rfl⟩
        | ok v =>
            have hreadable : readable line = true := by simp [readable, hparse]
            have hloadable : Loadable line ↔ ReasonsKeepable v := by
              simp [Loadable, hblank, hparse]
            have hrecord := loadRecord_isOk v s
            have hpanics := loadRecord_onlyPanics v s
            rw [List.takeWhile_cons_of_pos hreadable, List.forall_mem_cons, hloadable, ← hrecord]
            dsimp only
            cases hload : loadRecord v s with
            | error fault =>
                -- a panic is no answer
                simp only [isOk_error, Bool.false_eq_true, false_and, iff_false]
                rw [hload] at hpanics
                rintro (⟨s', hs'⟩ | ⟨i, bad, e, -, -, -, hresult⟩)
                · cases hs'
                · exact hpanics _ hresult
            | ok s' =>
                simp only [isOk_ok, true_and]
                rw [Answers.later hreadable, ih]

/-- The load of a text ends with a session, or with the number of a line that is no JSON. -/
def Total (label text : String) : Prop :=
  Answers 1 (Lines.lines text.toList) (loadSession label text)

/-- A load is total exactly if every reason that is read on a line before the first line that
is no JSON can be kept. -/
theorem loadSession_total_iff (label text : String) :
    Total label text ↔ ∀ line ∈ (Lines.lines text.toList).takeWhile readable, Loadable line :=
  loadLines_answers_iff 1 _ _

/-- A reason of 257 bytes, the last character of which lies across the byte where reasons
are cut. -/
def straddlingReason : String := String.ofList (List.replicate 255 'a' ++ ['é'])

/-- A charge that is absent for that reason. -/
def straddlingCharge : List Char :=
  objectText [("v", "null".toList), ("reason", quoted straddlingReason)]

/-- A battery record with that charge. -/
def straddlingText : List Char :=
  objectText [("collector", quoted "battery"), ("charge_w", straddlingCharge)]

def straddlingRecord : JVal :=
  .obj [("collector", .str "battery"),
    ("charge_w", .obj [("v", .null), ("reason", .str straddlingReason)])]

theorem takes_straddlingCharge {levels : Nat} : Takes (valueReader (levels + 2)) straddlingCharge
    (.obj [("v", .null), ("reason", .str straddlingReason)]) := by
  refine takes_objectText [("v", "null".toList, .null),
    ("reason", quoted straddlingReason, .str straddlingReason)] ?_
  simp only [List.forall_mem_cons, List.not_mem_nil, false_imp_iff, implies_true, and_true]
  exact ⟨takes_null, takes_quoted _⟩

theorem parse_straddlingText : parse (String.ofList straddlingText) = .ok straddlingRecord := by
  apply parse_of_takes
  rw [String.toList_ofList]
  refine takes_objectText [("collector", quoted "battery", .str "battery"),
    ("charge_w", straddlingCharge, .obj [("v", .null), ("reason", .str straddlingReason)])] ?_
  simp only [List.forall_mem_cons, List.not_mem_nil, false_imp_iff, implies_true, and_true]
  exact ⟨takes_quoted _, takes_straddlingCharge⟩

theorem straddlingText_single : Lines.lines straddlingText = [straddlingText] := by
  have hline : '\n' ∉ straddlingText := by
    apply newline_not_mem_objectText
    simp only [List.forall_mem_cons, List.not_mem_nil, false_imp_iff, implies_true, and_true]
    refine ⟨newline_not_mem_quoted _, newline_not_mem_objectText ?_⟩
    simp only [List.forall_mem_cons, List.not_mem_nil, false_imp_iff, implies_true, and_true]
    exact ⟨by decide, newline_not_mem_quoted _⟩
  have hne : straddlingText ≠ [] := List.cons_ne_nil _ _
  rw [Lines.lines_unterminated hline, if_neg hne]

theorem not_reasonsKeepable_straddlingRecord : ¬ ReasonsKeepable straddlingRecord := by
  intro hkeepable
  have hcut : truncate reasonLimit (List.replicate 255 'a' ++ ['é']) = none := by decide +kernel
  have hlist : straddlingReason.toList = List.replicate 255 'a' ++ ['é'] := String.toList_ofList
  have hcharge := hkeepable "battery" rfl (straddlingRecord.get "charge_w")
    (List.mem_append_left _ (List.mem_append_left _ (by simp [keyed])))
  have hkept := hcharge straddlingReason rfl
  rw [hlist, hcut] at hkept
  cases hkept

theorem loadSession_panics : ¬ ∀ label text, Total label text := by
  intro hall
  have htrim : Lines.trim straddlingText = straddlingText := trim_objectText _
  have hreadable : readable straddlingText = true := by
    simp [readable, htrim, parse_straddlingText]
  have hanswers := hall "run" (String.ofList straddlingText)
  rw [Total, loadSession, String.toList_ofList, straddlingText_single] at hanswers
  have hloadable := (loadLines_answers_iff 1 _ _).mp hanswers straddlingText (by
    rw [List.takeWhile_cons_of_pos hreadable]
    exact List.mem_cons_self)
  obtain ⟨v, hparse, hkeepable⟩ := hloadable (by rw [htrim]; exact List.cons_ne_nil _ _)
  rw [htrim, parse_straddlingText] at hparse
  obtain rfl := Except.ok.inj hparse
  exact not_reasonsKeepable_straddlingRecord hkeepable

end PowerForensics.Session
