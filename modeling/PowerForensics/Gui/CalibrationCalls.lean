import Mathlib.Logic.Function.Basic
import PowerForensics.Gui.CalibrationStore
import PowerForensics.System.Runs

/-! # Calls on the stored calibrations

Calls run side by side, and no lock keeps a call from loading the file while another one is
between its loading and its saving. A read that fails, or finds a text that cannot be parsed, is
taken as an empty store, and what is saved after it takes the place of what is stored.
-/

namespace PowerForensics.CalibrationStore

open Calibration ExperimentStore Runs

/-! ## States -/

/-- A call that has loaded the file: the set and the text that it saves, the revision that is new
in it, and how many revisions had been stored when it loaded. -/
structure Saving where
  set : CalibrationSetFile
  added : Option CalibrationRecordFile
  text : String
  loaded : Nat
  wrote : Bool

/-- The file and the temporary one, the calls, and the revisions that calls have stored. -/
structure State where
  record : Option String
  temp : Option String
  calls : Nat → Option Saving
  stored : List CalibrationRecordFile

def start : State := ⟨none, none, fun _ => none, []⟩

def State.setCall (s : State) (c : Nat) (call : Option Saving) : State :=
  { s with calls := Function.update s.calls c call }

/-- What a call reads of the file. -/
inductive Reading where
  | intact
  | failed
  | garbled (text : String)

inductive Action where
  | load (c : Nat) (op : Op) (reading : Reading)
  | write (c : Nat)
  | failWrite (c : Nat) (left : Option String)
  | rename (c : Nat)
  | failRename (c : Nat)

/-! ## Steps -/

section Steps

variable (codec : Codec)

/-- A garbled text is one that cannot be parsed. -/
def Reading.possible : Reading → Bool
  | garbled text => (codec.parse text).isNone
  | _ => true

/-- The set that a call goes on with. -/
def Reading.set (record : Option String) : Reading → CalibrationSetFile
  | intact => loadSet codec record
  | failed => loadSet codec none
  | garbled text => loadSet codec (some text)

def step (s : State) : Action → Option State
  | .load c op reading =>
      if (s.calls c).isNone ∧ reading.possible codec then
        match op.apply (reading.set codec s.record) with
        | .error _ => some s
        | .ok (set, added) =>
            match codec.print set with
            | .error _ => some s
            | .ok text => some (s.setCall c (some ⟨set, added, text, s.stored.length, false⟩))
      else none
  | .write c =>
      match s.calls c with
      | some ⟨set, added, text, loaded, false⟩ =>
          some { s.setCall c (some ⟨set, added, text, loaded, true⟩) with temp := some text }
      | _ => none
  | .failWrite c left =>
      match s.calls c with
      | some ⟨_, _, _, _, false⟩ => some { s.setCall c none with temp := left }
      | _ => none
  | .rename c =>
      match s.calls c, s.temp with
      | some ⟨_, added, _, _, true⟩, some text =>
          some { s.setCall c none with
            record := some text
            temp := none
            stored := s.stored ++ added.toList }
      | _, _ => none
  | .failRename c =>
      match s.calls c with
      | some ⟨_, _, _, _, true⟩ => some (s.setCall c none)
      | _ => none

/-! ## What is asked -/

/-- What the file holds. -/
def current (s : State) : CalibrationSetFile := loadSet codec s.record

/-- Every revision that a call has stored is listed as it was stored. -/
structure Kept (s : State) : Prop where
  listed : ∀ r ∈ s.stored, r ∈ (current codec s).revisions
  wellformed : Wellformed (current codec s)

/-- A call that adds a revision finds the file as it is, with numbers left, and its own numbers
are ones that texts keep. A call that renames does so with its own text, and since it has loaded
no revision has been stored. -/
def Harmless (kept : Binary64 → Prop) (s : State) : Action → Prop
  | .load _ (.create _ request) reading => ∀ kind fit, checkRequest request = .ok (kind, fit) →
      reading.set codec s.record = current codec s ∧ Roomy (current codec s) ∧
        ∀ x ∈ requestNumbers request fit, kept x
  | .rename c => ∀ saving ∈ s.calls c, s.temp = some saving.text ∧ saving.loaded = s.stored.length
  | _ => True

/-! ## The invariant -/

/-- Texts keep the numbers of a set. -/
def Textual (kept : Binary64 → Prop) (set : CalibrationSetFile) : Prop :=
  ∀ r ∈ set.revisions, ∀ x ∈ r.numbers, kept x

/-- A set may be stored in the place of what is stored. -/
structure Fitting (kept : Binary64 → Prop) (stored : List CalibrationRecordFile)
    (set : CalibrationSetFile) : Prop where
  listed : ∀ r ∈ stored, r ∈ set.revisions
  wellformed : Wellformed set
  textual : Textual kept set

structure Consistent (kept : Binary64 → Prop) (s : State) : Prop where
  current : Fitting kept s.stored (current codec s)
  printed : ∀ c, ∀ saving ∈ s.calls c, codec.print saving.set = .ok saving.text
  loaded : ∀ c, ∀ saving ∈ s.calls c, saving.loaded ≤ s.stored.length
  saving : ∀ c, ∀ saving ∈ s.calls c, saving.loaded = s.stored.length →
    Fitting kept (s.stored ++ saving.added.toList) saving.set

end Steps

section Invariant

variable {codec : Codec} {kept : Binary64 → Prop} {s t : State} {c : Nat}

@[simp] theorem calls_setCall (call : Option Saving) (d : Nat) :
    (s.setCall c call).calls d = if d = c then call else s.calls d := by
  exact Function.update_apply s.calls c call d

theorem fitting_emptySet (kept : Binary64 → Prop) : Fitting kept [] emptySet where
  listed _ hr := by cases hr
  wellformed := wellformed_emptySet
  textual _ hr := by cases hr

/-- A call goes on with what is stored, or with nothing. -/
theorem Reading.set_cases {reading : Reading} (hpossible : reading.possible codec)
    (record : Option String) :
    reading.set codec record = loadSet codec record ∨ reading.set codec record = emptySet := by
  cases reading with
  | intact => exact Or.inl rfl
  | failed => exact Or.inr rfl
  | garbled text =>
      right
      simp only [possible, Option.isNone_iff_eq_none] at hpossible
      simp only [set, loadSet, hpossible, Option.getD_none]

/-- Making a revision active, if that succeeds, only changes which one is. -/
theorem apply_setActive {set set' : CalibrationSetFile} {added : Option CalibrationRecordFile}
    {atMs : UInt64} {id : String} (h : (Op.setActive atMs id).apply set = .ok (set', added)) :
    added = none ∧ set' = activated id atMs set ∧ ∃ r ∈ set.revisions, r.id = id := by
  simp only [Op.apply] at h
  split at h
  · cases h
  · split at h
    · next hlisted =>
      obtain ⟨rfl, rfl⟩ := Prod.mk.inj (Except.ok.inj h)
      obtain ⟨r, hr, hid⟩ := List.any_eq_true.mp hlisted
      exact ⟨rfl, rfl, r, hr, of_decide_eq_true hid⟩
    · cases h

theorem apply_create {set set' : CalibrationSetFile} {added : Option CalibrationRecordFile}
    {env : Surroundings} {request : CreateRequest}
    (h : (Op.create env request).apply set = .ok (set', added)) :
    ∃ kind fit, checkRequest request = .ok (kind, fit) ∧
      added = some (newRecord env request kind fit (nextRevision set)) ∧
      set' = withRevision env request (newRecord env request kind fit (nextRevision set)) set := by
  simp only [Op.apply] at h
  split at h
  · cases h
  · next kind fit hcheck =>
    obtain ⟨rfl, rfl⟩ := Prod.mk.inj (Except.ok.inj h)
    exact ⟨kind, fit, hcheck, rfl, rfl⟩

/-- What a request that has been checked makes of a set. -/
theorem apply_of_checked {request : CreateRequest} {kind : ReferenceKind} {fit : FitOutcome}
    (env : Surroundings) (set : CalibrationSetFile)
    (hcheck : checkRequest request = .ok (kind, fit)) :
    (Op.create env request).apply set =
      .ok (withRevision env request (newRecord env request kind fit (nextRevision set)) set,
        some (newRecord env request kind fit (nextRevision set))) := by
  simp only [Op.apply, hcheck]

/-- The set with another revision, if the request is one that can be fitted. -/
def createdSet (env : Surroundings) (set : CalibrationSetFile) (request : CreateRequest) :
    CalibrationSetFile :=
  match (Op.create env request).apply set with
  | .ok (set, _) => set
  | .error _ => set

theorem apply_created {request : CreateRequest} {kind : ReferenceKind} {fit : FitOutcome}
    (env : Surroundings) (set : CalibrationSetFile)
    (hcheck : checkRequest request = .ok (kind, fit)) :
    (Op.create env request).apply set =
      .ok (createdSet env set request,
        some (newRecord env request kind fit (nextRevision set))) := by
  simp only [createdSet, apply_of_checked env set hcheck]

theorem revisions_createdSet {request : CreateRequest} {kind : ReferenceKind} {fit : FitOutcome}
    (env : Surroundings) (set : CalibrationSetFile)
    (hcheck : checkRequest request = .ok (kind, fit)) :
    (createdSet env set request).revisions =
      set.revisions ++ [newRecord env request kind fit (nextRevision set)] := by
  simp only [createdSet, apply_of_checked env set hcheck, revisions_withRevision]

theorem Fitting.activated {stored : List CalibrationRecordFile} {set : CalibrationSetFile}
    (h : Fitting kept stored set) (atMs : UInt64) {id : String}
    (hid : ∃ r ∈ set.revisions, r.id = id) : Fitting kept stored (activated id atMs set) where
  listed := h.listed
  wellformed := h.wellformed.activated atMs hid
  textual := h.textual

/-- A new revision is stored besides the others. -/
theorem Fitting.withRevision {stored : List CalibrationRecordFile} {set : CalibrationSetFile}
    {env : Surroundings} {request : CreateRequest} {kind : ReferenceKind} {fit : FitOutcome}
    (h : Fitting kept stored set) (hroomy : Roomy set)
    (hnumbers : ∀ x ∈ requestNumbers request fit, kept x) :
    let record := newRecord env request kind fit (nextRevision set)
    Fitting kept (stored ++ [record]) (withRevision env request record set) := by
  intro record
  refine ⟨fun r hr => ?_, h.wellformed.withRevision fun r hr => ?_, fun r hr x hx => ?_⟩
  · rw [revisions_withRevision]
    obtain hr | hr := List.mem_append.mp hr
    · exact List.mem_append_left _ (h.listed r hr)
    · exact List.mem_append_right _ hr
  · exact (UInt32.ne_of_lt (lt_nextRevision hroomy hr))
  · rw [revisions_withRevision] at hr
    obtain hr | hr := List.mem_append.mp hr
    · exact h.textual r hr x hx
    · obtain rfl := List.mem_singleton.mp hr
      exact hnumbers x (numbers_newRecord kind fit _ x hx)

/-- The set that a harmless call saves may take the place of what is stored. -/
theorem Fitting.apply {op : Op} {reading : Reading} {set : CalibrationSetFile}
    {added : Option CalibrationRecordFile} (h : Fitting kept s.stored (current codec s))
    (hpossible : reading.possible codec) (hharmless : Harmless codec kept s (.load c op reading))
    (happly : op.apply (reading.set codec s.record) = .ok (set, added)) :
    Fitting kept (s.stored ++ added.toList) set := by
  cases op with
  | create env request =>
      obtain ⟨kind, fit, hcheck, rfl, rfl⟩ := apply_create happly
      obtain ⟨hset, hroomy, hnumbers⟩ := hharmless kind fit hcheck
      rw [hset]
      exact h.withRevision hroomy hnumbers
  | setActive atMs id =>
      obtain ⟨rfl, rfl, hlisted⟩ := apply_setActive happly
      rw [Option.toList_none, List.append_nil]
      obtain hset | hset := Reading.set_cases hpossible s.record
      · rw [hset] at hlisted ⊢
        exact h.activated atMs hlisted
      · rw [hset] at hlisted
        obtain ⟨r, hr, -⟩ := hlisted
        cases hr

/-- A call may begin to save what it has made of the stored set, or end. -/
theorem Consistent.setCall (h : Consistent codec kept s) {call : Option Saving}
    (hprinted : ∀ saving ∈ call, codec.print saving.set = .ok saving.text)
    (hloaded : ∀ saving ∈ call, saving.loaded ≤ s.stored.length)
    (hsaving : ∀ saving ∈ call, saving.loaded = s.stored.length →
      Fitting kept (s.stored ++ saving.added.toList) saving.set) :
    Consistent codec kept (s.setCall c call) where
  current := h.current
  printed d saving hd := by
    rw [calls_setCall] at hd
    split at hd
    · exact hprinted saving hd
    · exact h.printed d saving hd
  loaded d saving hd := by
    rw [calls_setCall] at hd
    split at hd
    · exact hloaded saving hd
    · exact h.loaded d saving hd
  saving d saving hd := by
    rw [calls_setCall] at hd
    split at hd
    · exact hsaving saving hd
    · exact h.saving d saving hd

theorem Consistent.endCall (h : Consistent codec kept s) (c : Nat) :
    Consistent codec kept (s.setCall c none) :=
  h.setCall (fun _ hsaving => by cases hsaving) (fun _ hsaving => by cases hsaving)
    (fun _ hsaving => by cases hsaving)

/-- The temporary file says nothing about what is stored. -/
theorem Consistent.withTemp (h : Consistent codec kept s) (temp : Option String) :
    Consistent codec kept { s with temp } :=
  ⟨h.current, h.printed, h.loaded, h.saving⟩

/-- The text of a call that has loaded what is stored takes its place. -/
theorem Consistent.rename (hcodec : codec.Faithful kept) (h : Consistent codec kept s)
    {saving : Saving} (hcall : saving ∈ s.calls c) (hloaded : saving.loaded = s.stored.length) :
    Consistent codec kept { s.setCall c none with
      record := some saving.text
      temp := none
      stored := s.stored ++ saving.added.toList } := by
  have hfitting := h.saving c saving hcall hloaded
  have hread : codec.parse saving.text = some saving.set :=
    hcodec _ _ (h.printed c saving hcall) hfitting.textual
  refine ⟨?_, (h.endCall c).printed, fun d other hd => ?_, fun d other hd hother => ?_⟩
  · simpa only [CalibrationStore.current, loadSet, hread, Option.getD_some] using hfitting
  · exact ((h.endCall c).loaded d other hd).trans (by simp [State.setCall])
  · have hle : other.loaded ≤ s.stored.length := (h.endCall c).loaded d other hd
    -- A call that has loaded the same revisions finds no new one.
    have hnone : saving.added.toList = [] := by
      rw [hother, List.length_append] at hle
      exact List.length_eq_zero_iff.mp (by omega)
    simp only [hnone, List.append_nil] at hother ⊢
    exact (h.endCall c).saving d other hd hother

theorem consistent_start (codec : Codec) (kept : Binary64 → Prop) :
    Consistent codec kept start where
  current := fitting_emptySet kept
  printed _ _ hcall := by cases hcall
  loaded _ _ hcall := by cases hcall
  saving _ _ hcall := by cases hcall

theorem step_consistent (hcodec : codec.Faithful kept) {a : Action} (h : Consistent codec kept s)
    (hharmless : Harmless codec kept s a) (hstep : step codec s a = some t) :
    Consistent codec kept t := by
  cases a with
  | load c op reading =>
      simp only [step] at hstep
      split at hstep
      · next hguard =>
        split at hstep
        · -- the change is refused, or the set cannot be printed
          exact Option.some.inj hstep ▸ h
        · next set added happly =>
          split at hstep
          · exact Option.some.inj hstep ▸ h
          · next text hprint =>
            obtain rfl := Option.some.inj hstep
            refine h.setCall ?_ ?_ ?_
            · rintro saving ⟨⟩
              exact hprint
            · rintro saving ⟨⟩
              exact le_refl _
            · rintro saving ⟨⟩ -
              exact h.current.apply hguard.2 hharmless happly
      · cases hstep
  | write c =>
      simp only [step] at hstep
      split at hstep
      · next set added text loaded hcall =>
        obtain rfl := Option.some.inj hstep
        -- only the mark that the text is written is new
        refine (h.setCall ?_ ?_ ?_).withTemp (some text)
        · rintro saving ⟨⟩
          exact h.printed c ⟨set, added, text, loaded, false⟩ hcall
        · rintro saving ⟨⟩
          exact h.loaded c ⟨set, added, text, loaded, false⟩ hcall
        · rintro saving ⟨⟩
          exact h.saving c ⟨set, added, text, loaded, false⟩ hcall
      · cases hstep
  | failWrite c left =>
      simp only [step] at hstep
      split at hstep
      · obtain rfl := Option.some.inj hstep
        exact (h.endCall c).withTemp left
      · cases hstep
  | rename c =>
      simp only [step] at hstep
      split at hstep
      · next added text loaded temp hcall htemp =>
        obtain rfl := Option.some.inj hstep
        obtain ⟨hown, hloaded⟩ := hharmless _ hcall
        obtain rfl := Option.some.inj (htemp.symm.trans hown)
        exact h.rename hcodec hcall hloaded
      · cases hstep
  | failRename c =>
      simp only [step] at hstep
      split at hstep
      · obtain rfl := Option.some.inj hstep
        exact h.endCall c
      · cases hstep

theorem Consistent.keeps (h : Consistent codec kept s) : Kept codec s :=
  ⟨h.current.listed, h.current.wellformed⟩

end Invariant

/-! ## Calls that nothing interrupts -/

section Calls

variable {codec : Codec} {s : State} {c : Nat}

/-- A call that saves, if nothing interrupts it. -/
theorem run_call {op : Op} {reading : Reading} {set : CalibrationSetFile}
    {added : Option CalibrationRecordFile} {text : String} (hidle : s.calls c = none)
    (hpossible : reading.possible codec)
    (happly : op.apply (reading.set codec s.record) = .ok (set, added))
    (hprint : codec.print set = .ok text) :
    run (step codec) s [.load c op reading, .write c, .rename c] =
      some ⟨some text, none, s.calls, s.stored ++ added.toList⟩ := by
  have hcalls : Function.update s.calls c none = s.calls := by
    rw [← hidle, Function.update_eq_self]
  simp [run_cons, step, State.setCall, hidle, hpossible, happly, hprint, hcalls]

/-- Such a call is harmless if its loading is. -/
theorem meets_call {kept : Binary64 → Prop} {op : Op} {reading : Reading}
    {set : CalibrationSetFile} {added : Option CalibrationRecordFile} {text : String}
    (hidle : s.calls c = none) (hpossible : reading.possible codec)
    (happly : op.apply (reading.set codec s.record) = .ok (set, added))
    (hprint : codec.print set = .ok text) (hload : Harmless codec kept s (.load c op reading)) :
    Meets (step codec) (Harmless codec kept) s [.load c op reading, .write c, .rename c] := by
  refine ⟨hload, fun t ht => ⟨trivial, fun u hu => ⟨?_, fun _ _ => trivial⟩⟩⟩
  obtain rfl : s.setCall c (some ⟨set, added, text, s.stored.length, false⟩) = t := by
    simpa [step, hidle, hpossible, happly, hprint] using ht
  simp only [step, calls_setCall, if_true] at hu
  obtain rfl := Option.some.inj hu
  intro saving hsaving
  obtain rfl : ⟨set, added, text, s.stored.length, true⟩ = saving := by simpa using hsaving
  exact ⟨rfl, rfl⟩

/-- A revision that is made after a reading that failed takes the place of the others. -/
theorem run_forgetful {env : Surroundings} {first second : CreateRequest}
    {set₁ set₂ : CalibrationSetFile} {r₁ r₂ : CalibrationRecordFile} {text₁ text₂ : String}
    (hfirst : (Op.create env first).apply emptySet = .ok (set₁, some r₁))
    (hsecond : (Op.create env second).apply emptySet = .ok (set₂, some r₂))
    (hprint₁ : codec.print set₁ = .ok text₁) (hprint₂ : codec.print set₂ = .ok text₂) :
    run (step codec) start ([.load 0 (.create env first) .intact, .write 0, .rename 0] ++
        [.load 1 (.create env second) .failed, .write 1, .rename 1]) =
      some ⟨some text₂, none, fun _ => none, [r₁, r₂]⟩ := by
  have hrun := @run_call codec start 0 _ .intact _ _ _ rfl rfl hfirst hprint₁
  have hagain := @run_call codec ⟨some text₁, none, fun _ => none, [r₁]⟩ 1 _ .failed _ _ _ rfl rfl
    hsecond hprint₂
  rw [run_append, hrun]
  exact hagain

end Calls

/-- Two sets with their texts. -/
structure Texts where
  first : CalibrationSetFile
  second : CalibrationSetFile
  firstText : String
  secondText : String

/-- What is written of two sets and read of their texts. -/
def Texts.codec (texts : Texts) : Codec where
  print set :=
    if set = texts.first then .ok texts.firstText
    else if set = texts.second then .ok texts.secondText
    else .error "not one of these sets"
  parse text :=
    if text = texts.firstText then some texts.first
    else if text = texts.secondText then some texts.second
    else none

section Texts

variable {texts : Texts}

theorem Texts.print_first : texts.codec.print texts.first = .ok texts.firstText := by
  simp only [codec, if_true]

theorem Texts.parse_first : texts.codec.parse texts.firstText = some texts.first := by
  simp only [codec, if_true]

theorem Texts.print_second (hne : texts.second ≠ texts.first) :
    texts.codec.print texts.second = .ok texts.secondText := by
  simp only [codec, if_neg hne, if_true]

theorem Texts.parse_second (hne : texts.secondText ≠ texts.firstText) :
    texts.codec.parse texts.secondText = some texts.second := by
  simp only [codec, if_neg hne, if_true]

theorem Texts.faithful (hne : texts.secondText ≠ texts.firstText) (kept : Binary64 → Prop) :
    texts.codec.Faithful kept := by
  intro set text hprint _
  simp only [codec] at hprint
  split at hprint
  · next hfirst =>
    obtain rfl := Except.ok.inj hprint
    simp only [codec, if_true, hfirst]
  · split at hprint
    · next hsecond =>
      obtain rfl := Except.ok.inj hprint
      rw [hsecond]
      exact parse_second hne
    · cases hprint

end Texts

/-! ## Measurements with a meter -/

/-- The machine that two measurements are made on. -/
def desk : Surroundings := ⟨"DESK", "DELA0F7", 1000, 1000⟩

/-- One watt with the panel dark, and two with it bright. -/
def bench (notes : String) : CreateRequest where
  target := "display_power"
  referenceKind := "bench_meter"
  references := [⟨0.0, 1.0, "bench_meter", "meter", ""⟩, ⟨100.0, 2.0, "bench_meter", "meter", ""⟩]
  dataset := []
  exclusions := []
  notes
  machine := none
  panel := none
  powerSource := none
  activate := true

theorem fit_bench : (fitDisplayCalibration [(0.0, 1.0), (100.0, 2.0)]).any fun fit =>
    (requestNumbers (bench "") fit).all Binary64.isFinite := by
  decide +kernel

/-- The set after such measurements. -/
@[irreducible] def benchSet (notes : List String) : CalibrationSetFile :=
  notes.foldl (fun set n => createdSet desk set (bench n)) emptySet

/-- The text of the set after measurements with such notes, if these need no escapes. -/
def benchText (notes : List String) : String :=
  "\x7b\n  \"schemaVersion\": 1,\n  \"target\": \"display_power\",\n" ++
    "  \"activeId\": " ++ id notes.length ++ ",\n  \"revisions\": [\n" ++
    ",\n".intercalate ((notes.zipIdx 1).map revision) ++ "\n  ],\n  \"activeEvents\": [\n" ++
    ",\n".intercalate ((List.range notes.length).map event) ++ "\n  ]\n\x7d"
where
  id (number : Nat) : String := s!"\"display_power#{number}\""
  revision (r : String × Nat) : String :=
    "    \x7b\n      \"id\": " ++ id r.2 ++ ",\n      \"revision\": " ++ toString r.2 ++ ",\n" ++
      "      \"createdAtMs\": 1000,\n      \"target\": \"display_power\",\n" ++
      "      \"modelKind\": \"display_linear\",\n      \"evidenceClass\": \"estimated\",\n" ++
      "      \"referenceKind\": \"bench_meter\",\n      \"independentReference\": true,\n" ++
      "      \"model\": \x7b\n        \"slopeWPerPct\": 0.01,\n        \"interceptW\": 1.0,\n" ++
      "        \"minBrightness\": 0.0,\n        \"r2Fit\": 1.0\n      \x7d,\n" ++
      "      \"applicability\": \x7b\n        \"machine\": \"DESK\",\n" ++
      "        \"panel\": \"DELA0F7\",\n        \"inputMin\": 0.0,\n" ++
      "        \"inputMax\": 100.0,\n        \"powerSource\": null\n      \x7d,\n" ++
      "      \"references\": [\n" ++ reference "0.0" "1.0" ++ ",\n" ++ reference "100.0" "2.0" ++
      "\n      ],\n      \"dataset\": [],\n      \"exclusions\": [],\n" ++
      "      \"validation\": null,\n      \"residuals\": [\n" ++
      residual "0.0" "1.0" ++ ",\n" ++ residual "100.0" "2.0" ++
      "\n      ],\n      \"quality\": \"insufficient_evidence\",\n" ++
      "      \"qualityReasons\": [\n" ++
      "        \"only two points and no independent validation\"\n      ],\n" ++
      "      \"notes\": \"" ++ r.1 ++ "\"\n    \x7d"
  event (before : Nat) : String :=
    "    \x7b\n      \"id\": " ++ id (before + 1) ++ ",\n      \"previousId\": " ++
      (if before = 0 then "null" else id before) ++ ",\n      \"atMs\": 1000,\n" ++
      "      \"action\": \"activated\"\n    \x7d"
  reference (input watts : String) : String :=
    "        \x7b\n          \"input\": " ++ input ++ ",\n          \"reference\": " ++ watts ++
      ",\n          \"kind\": \"bench_meter\",\n          \"sourceLabel\": \"meter\",\n" ++
      "          \"note\": \"\"\n        \x7d"
  residual (input watts : String) : String :=
    "        \x7b\n          \"input\": " ++ input ++ ",\n          \"predicted\": " ++ watts ++
      ",\n          \"reference\": " ++ watts ++ ",\n          \"absError\": 0.0,\n" ++
      "          \"relativeError\": 0.0,\n          \"heldOut\": false,\n" ++
      "          \"inDomain\": true\n        \x7d"
/-- The sets of two measurements that were made apart. -/
def apartTexts : Texts :=
  ⟨benchSet ["first"], benchSet ["second"], benchText ["first"], benchText ["second"]⟩

/-- The sets of a measurement and of another one behind it. -/
def benchTexts : Texts :=
  ⟨benchSet ["first"], benchSet ["first", "second"], benchText ["first"],
    benchText ["first", "second"]⟩

theorem checkRequest_bench (notes : String) : ∃ fit,
    checkRequest (bench notes) = .ok (.benchMeter, fit) ∧
      ∀ x ∈ requestNumbers (bench notes) fit, x.isFinite := by
  have hfinite := fit_bench
  cases hfit : fitDisplayCalibration [(0.0, 1.0), (100.0, 2.0)] with
  | none =>
      rw [hfit] at hfinite
      cases hfinite
  | some fit =>
      rw [hfit, Option.any_some, List.all_eq_true] at hfinite
      refine ⟨fit, ?_, hfinite⟩
      have htarget : (bench notes).target = targetDisplayPower := rfl
      have hkind : ReferenceKind.parse (bench notes).referenceKind = some .benchMeter := rfl
      unfold checkRequest
      rw [if_neg (not_not_intro htarget), hkind]
      simp only [bench, List.length_cons, List.length_nil, List.map_cons, List.map_nil, hfit]
      rfl

theorem notes_benchSet (notes : List String) :
    (benchSet notes).revisions.map (·.notes) = notes := by
  have hnotes : ∀ set : CalibrationSetFile,
      ((notes.foldl (fun set n => createdSet desk set (bench n)) set).revisions.map (·.notes)) =
        set.revisions.map (·.notes) ++ notes := by
    induction notes with
    | nil => exact fun set => (List.append_nil _).symm
    | cons n notes ih =>
        intro set
        obtain ⟨fit, hcheck, -⟩ := checkRequest_bench n
        rw [List.foldl_cons, ih, revisions_createdSet desk set hcheck, List.map_append,
          List.map_singleton, notes_newRecord, List.append_assoc]
        rfl
  unfold benchSet
  exact hnotes emptySet

theorem benchSet_inj {notes notes' : List String} (hset : benchSet notes = benchSet notes') :
    notes = notes' := by
  rw [← notes_benchSet notes, hset, notes_benchSet]

theorem apply_bench (notes : List String) {n : String} {fit : FitOutcome}
    (hcheck : checkRequest (bench n) = .ok (.benchMeter, fit)) :
    (Op.create desk (bench n)).apply (benchSet notes) =
      .ok (benchSet (notes ++ [n]),
        some (newRecord desk (bench n) .benchMeter fit (nextRevision (benchSet notes)))) := by
  have happly := apply_created desk (benchSet notes) hcheck
  unfold benchSet at happly ⊢
  rw [List.foldl_append, List.foldl_cons, List.foldl_nil]
  exact happly

theorem benchSet_nil : benchSet [] = emptySet := by
  unfold benchSet
  rfl

/-- There is a number left behind a first measurement. -/
theorem roomy_benchSet (n : String) : Roomy (benchSet [n]) := by
  obtain ⟨fit, hcheck, -⟩ := checkRequest_bench n
  intro r hr
  unfold benchSet at hr
  have hempty : emptySet.revisions = [] := rfl
  rw [List.foldl_cons, List.foldl_nil, revisions_createdSet desk emptySet hcheck, hempty,
    List.nil_append, List.mem_singleton] at hr
  subst hr
  change (nextRevision emptySet).toNat + 1 < 2 ^ 32
  decide

def measure (c : Nat) (n : String) : List Action :=
  [.load c (.create desk (bench n)) .intact, .write c, .rename c]

/-- A measurement that nothing interrupts, with a number left for it, is stored. -/
theorem measure_stores {codec : Codec} {s : State} {c : Nat} {notes : List String}
    {n text : String} (hidle : s.calls c = none) (hread : current codec s = benchSet notes)
    (hroomy : Roomy (benchSet notes))
    (hprint : codec.print (benchSet (notes ++ [n])) = .ok text) :
    ∃ r : CalibrationRecordFile, r.notes = n ∧
      run (step codec) s (measure c n) = some ⟨some text, none, s.calls, s.stored ++ [r]⟩ ∧
      Meets (step codec) (Harmless codec (·.isFinite)) s (measure c n) := by
  obtain ⟨fit, hcheck, hfinite⟩ := checkRequest_bench n
  have happly := apply_bench notes hcheck
  rw [← hread] at happly hroomy
  refine ⟨_, notes_newRecord _ _ _,
    @run_call codec s c _ .intact _ _ _ hidle rfl happly hprint,
    @meets_call codec s c _ _ .intact _ _ _ hidle rfl happly hprint fun kind fit' hfit => ?_⟩
  obtain ⟨rfl, rfl⟩ := Prod.mk.inj (Except.ok.inj (hcheck.symm.trans hfit))
  exact ⟨rfl, hroomy, hfinite⟩

/-- If every call that adds a revision reads the file as it is, and no call takes the place of a
revision that was stored after it had read, every stored revision is listed. -/
theorem revisions_kept (codec : Codec) (kept : Binary64 → Prop) (hcodec : codec.Faithful kept)
    (actions : List Action) (s : State) (hrun : run (step codec) start actions = some s)
    (hharmless : Meets (step codec) (Harmless codec kept) start actions) : Kept codec s := by
  have hconsistent : Consistent codec kept s :=
    invariant_of_meets (fun _ _ _ h hharmless hstep => step_consistent hcodec h hharmless hstep)
      (consistent_start codec kept) hharmless hrun
  exact hconsistent.keeps

/-- Two measurements, the second of which reads what the first has stored. -/
theorem revisions_kept_twice :
    ∃ s, s.stored.map (·.notes) = ["first", "second"] ∧ Kept benchTexts.codec s := by
  have hset : benchTexts.second ≠ benchTexts.first := fun h =>
    absurd (benchSet_inj h) (by decide)
  have htext : benchTexts.secondText ≠ benchTexts.firstText := by decide +kernel
  have hread : loadSet benchTexts.codec (some benchTexts.firstText) = benchSet ["first"] := by
    rw [loadSet, Texts.parse_first, Option.getD_some]
    rfl
  obtain ⟨r, hr, hrun, hmeets⟩ := @measure_stores benchTexts.codec start 0 [] "first" _ rfl
    benchSet_nil.symm (fun _ hr => by rw [benchSet_nil] at hr; cases hr) Texts.print_first
  obtain ⟨r', hr', hrun', hmeets'⟩ := @measure_stores benchTexts.codec
    ⟨some benchTexts.firstText, none, fun _ => none, [r]⟩ 1 ["first"] "second" _ rfl hread
    (roomy_benchSet "first") (Texts.print_second hset)
  have hboth : run (step benchTexts.codec) start (measure 0 "first" ++ measure 1 "second") =
      some ⟨some benchTexts.secondText, none, fun _ => none, [r, r']⟩ := by
    rw [run_append, hrun]
    exact hrun'
  refine ⟨_, ?_, revisions_kept benchTexts.codec (·.isFinite) (Texts.faithful htext _) _ _ hboth
    ((meets_append hrun).mpr ⟨hmeets, hmeets'⟩)⟩
  rw [List.map_cons, List.map_singleton, hr, hr']

/-- A second revision that is made while the file cannot be read is stored as the first. -/
theorem revision_overwritten :
    ¬∀ (codec : Codec) (kept : Binary64 → Prop) (actions : List Action) (s : State),
      codec.Faithful kept → run (step codec) start actions = some s → Kept codec s := by
  intro h
  obtain ⟨fit, hcheck, -⟩ := checkRequest_bench "first"
  obtain ⟨fit', hcheck', -⟩ := checkRequest_bench "second"
  have hset : apartTexts.second ≠ apartTexts.first := fun h =>
    absurd (benchSet_inj h) (by decide)
  have htext : apartTexts.secondText ≠ apartTexts.firstText := by decide +kernel
  have happly := apply_bench [] hcheck
  have happly' := apply_bench [] hcheck'
  rw [benchSet_nil] at happly happly'
  have hkept := h apartTexts.codec (·.isFinite) _ _ (Texts.faithful htext _)
    (run_forgetful happly happly' Texts.print_first (Texts.print_second hset))
  have hlisted := hkept.listed _ List.mem_cons_self
  have hread := @Texts.parse_second apartTexts htext
  simp only [current, loadSet, hread, Option.getD_some] at hlisted
  have hnotes := List.mem_map_of_mem (f := (·.notes)) hlisted
  rw [notes_newRecord, show apartTexts.second = benchSet ["second"] from rfl, notes_benchSet]
    at hnotes
  exact absurd hnotes (by decide)

end PowerForensics.CalibrationStore
