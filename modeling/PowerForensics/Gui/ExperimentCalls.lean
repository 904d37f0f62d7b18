import PowerForensics.Gui.ExperimentStore
import PowerForensics.System.Runs

/-! # Calls on one experiment

Calls that save and calls that analyze run side by side. A call that saves holds the write lock
while it writes the temporary file, removes the stored one and renames. A call that analyzes
reads the stored record without the lock, and later saves what it has read with a result. What a
save of the user stored in between is then replaced.
-/

namespace PowerForensics.ExperimentStore

open Runs

/-! ## States -/

/-- A record with the number of the user's save that it comes from. -/
structure Copy where
  version : Nat
  record : ExperimentRecord

/-- How far a call that saves has come. -/
inductive Place where
  | waiting
  | wrote
  | removed
  deriving DecidableEq

inductive Call where
  | analyzing (copy : Copy)
  | saving (copy : Copy) (text : String) (place : Place)

/-- The files of the experiment, the calls on it, and the saves that the user has issued. Texts
are shown with the save that they come from. -/
structure State where
  record : Option (Nat × String)
  temp : Option (Nat × String)
  holder : Option Nat
  calls : Nat → Option Call
  issued : List UserFields

def start : State := ⟨none, none, none, fun _ => none, []⟩

def State.setCall (s : State) (c : Nat) (call : Option Call) : State :=
  { s with calls := Function.update s.calls c call }

inductive Action where
  | save (c : Nat) (times : Times) (record : ExperimentRecord)
  | read (c : Nat)
  | finish (c : Nat) (times : Times) (result : CachedResult)
  | write (c : Nat)
  | remove (c : Nat)
  | rename (c : Nat)

/-! ## Steps -/

section Steps

variable (codec : Codec) (id : String)

/-- The record and the text that a save of this experiment goes on with. -/
def prepare (times : Times) (record : ExperimentRecord) : Option (ExperimentRecord × String) :=
  match validate record, codec.print (stamp times record) with
  | .ok _, .ok text =>
      if (stamp times record).id = id then some (stamp times record, text) else none
  | _, _ => none

/-- What analyze saves when it has a result. -/
def withResult (times : Times) (result : CachedResult) (record : ExperimentRecord) :
    ExperimentRecord :=
  { record with lastResult := some result, updatedMs := times.updatedMs }

def step (s : State) : Action → Option State
  | .save c times record =>
      match s.calls c, prepare codec id times record with
      | none, some (record, text) =>
          some { s.setCall c (some (.saving ⟨s.issued.length, record⟩ text .waiting)) with
            issued := s.issued ++ [record.userFields] }
      | _, _ => none
  | .read c =>
      match s.calls c, s.record with
      | none, some (version, text) =>
          match codec.parse text with
          | .ok record => some (s.setCall c (some (.analyzing ⟨version, record⟩)))
          | .error _ => some s
      | none, none => some s
      | some _, _ => none
  | .finish c times result =>
      match s.calls c with
      | some (.analyzing copy) =>
          match prepare codec id times (withResult times result copy.record) with
          | some (record, text) =>
              some (s.setCall c (some (.saving ⟨copy.version, record⟩ text .waiting)))
          | none => some (s.setCall c none)
      | _ => none
  | .write c =>
      match s.calls c, s.holder with
      | some (.saving copy text .waiting), none =>
          some { s.setCall c (some (.saving copy text .wrote)) with
            temp := some (copy.version, text)
            holder := some c }
      | _, _ => none
  | .remove c =>
      match s.calls c with
      | some (.saving copy text .wrote) =>
          some { s.setCall c (some (.saving copy text .removed)) with record := none }
      | _ => none
  | .rename c =>
      match s.calls c with
      | some (.saving _ _ .removed) =>
          some { s.setCall c none with record := s.temp, temp := none, holder := none }
      | _ => none

end Steps

/-! ## What is asked -/

/-- The times of a record are finite. Others are written as null, which is not read. -/
structure Finite (r : ExperimentRecord) : Prop where
  settle : r.settleS.isFinite
  measure : r.measureS.isFinite

/-- A record with finite times is read back with such times and with what the user edits. -/
def Codec.Faithful (codec : Codec) : Prop :=
  ∀ r text, codec.print r = .ok text → Finite r →
    ∃ r', codec.parse text = .ok r' ∧ Finite r' ∧ r'.userFields = r.userFields

/-- No call is saving. -/
def Settled (s : State) : Prop := ∀ c copy text place, s.calls c ≠ some (.saving copy text place)

/-- What is stored are the fields of the last save that the user has issued. -/
def Kept (codec : Codec) (s : State) : Prop :=
  ∀ fields, s.issued.getLast? = some fields →
    ∃ version text r, s.record = some (version, text) ∧ codec.parse text = .ok r ∧
      r.userFields = fields

/-- The user saves records with finite times, and a record that is stored is not replaced with one
from an earlier save. -/
def Current (s : State) : Action → Prop
  | .save _ _ record => Finite record
  | .write c => ∀ copy text place, s.calls c = some (.saving copy text place) →
      ∀ stored ∈ s.record, stored.1 ≤ copy.version
  | _ => True

/-! ## The invariant -/

/-- A text is read with the fields of the save that it comes from. -/
def Holds (codec : Codec) (issued : List UserFields) (stored : Nat × String) : Prop :=
  ∃ r, codec.parse stored.2 = .ok r ∧ Finite r ∧ issued[stored.1]? = some r.userFields

/-- The call that holds the lock has written its text, and nothing newer is stored. -/
def Held (s : State) (c : Nat) : Prop :=
  ∃ copy text place, s.calls c = some (.saving copy text place) ∧ place ≠ .waiting ∧
    s.temp = some (copy.version, text) ∧ ∀ stored ∈ s.record, stored.1 ≤ copy.version

structure Ordered (codec : Codec) (s : State) : Prop where
  stored : ∀ stored ∈ s.record, Holds codec s.issued stored
  analyzing : ∀ c copy, s.calls c = some (.analyzing copy) →
    Finite copy.record ∧ s.issued[copy.version]? = some copy.record.userFields
  saving : ∀ c copy text place, s.calls c = some (.saving copy text place) →
    Holds codec s.issued (copy.version, text)
  unlocked : ∀ c copy text place, s.calls c = some (.saving copy text place) →
    s.holder ≠ some c → place = .waiting
  held : ∀ c ∈ s.holder, Held s c
  newest : s.issued ≠ [] → (∃ stored ∈ s.record, stored.1 + 1 = s.issued.length) ∨
    ∃ c copy text place, s.calls c = some (.saving copy text place) ∧
      copy.version + 1 = s.issued.length

section Invariant

variable {codec : Codec} {id : String} {s t : State} {c : Nat}

@[simp] theorem calls_setCall (call : Option Call) (d : Nat) :
    (s.setCall c call).calls d = if d = c then call else s.calls d := by
  exact Function.update_apply s.calls c call d

/-- A call that does not begin to analyze leaves those that do. -/
theorem analyzing_of_setCall {call : Option Call} (hcall : ∀ copy, call ≠ some (.analyzing copy))
    {d : Nat} {copy : Copy} (hd : (s.setCall c call).calls d = some (.analyzing copy)) :
    s.calls d = some (.analyzing copy) := by
  rw [calls_setCall] at hd
  split at hd
  · exact absurd hd (hcall copy)
  · exact hd

theorem Finite.stamp {r : ExperimentRecord} (h : Finite r) (times : Times) :
    Finite (stamp times r) := ⟨h.settle, h.measure⟩

theorem Finite.withResult {r : ExperimentRecord} (h : Finite r) (times : Times)
    (result : CachedResult) : Finite (withResult times result r) := ⟨h.settle, h.measure⟩

theorem Holds.append {issued : List UserFields} {stored : Nat × String}
    (h : Holds codec issued stored) (fields : UserFields) :
    Holds codec (issued ++ [fields]) stored := by
  obtain ⟨r, hparse, hfinite, hissued⟩ := h
  exact ⟨r, hparse, hfinite,
    List.getElem?_append_left (List.getElem?_eq_some_iff.mp hissued).1 ▸ hissued⟩

theorem Holds.lt {issued : List UserFields} {stored : Nat × String}
    (h : Holds codec issued stored) : stored.1 < issued.length := by
  obtain ⟨r, -, -, hissued⟩ := h
  exact (List.getElem?_eq_some_iff.mp hissued).1

theorem prepare_eq_some {times : Times} {record record' : ExperimentRecord} {text : String}
    (h : prepare codec id times record = some (record', text)) :
    record' = stamp times record ∧ codec.print record' = .ok text := by
  unfold prepare at h
  split at h
  · next hvalid hprint =>
    obtain ⟨-, h⟩ := Option.ite_none_right_eq_some.mp h
    obtain ⟨rfl, rfl⟩ := Prod.mk.inj (Option.some.inj h)
    exact ⟨rfl, hprint⟩
  · cases h

/-- A call that is not saving may go on to something else, also to wait with a text that comes
from a save. -/
theorem Ordered.setCall (h : Ordered codec s) {call : Option Call}
    (hidle : ∀ copy text place, s.calls c ≠ some (.saving copy text place))
    (hsaving : ∀ copy text place, call = some (.saving copy text place) →
      place = .waiting ∧ Holds codec s.issued (copy.version, text))
    (hanalyzing : ∀ copy, call = some (.analyzing copy) →
      Finite copy.record ∧ s.issued[copy.version]? = some copy.record.userFields) :
    Ordered codec (s.setCall c call) where
  stored := h.stored
  analyzing d copy hd := by
    by_cases hdc : d = c
    · exact hanalyzing copy (by simpa [hdc] using hd)
    · exact h.analyzing d copy (by simpa [hdc] using hd)
  saving d copy text place hd := by
    by_cases hdc : d = c
    · exact (hsaving copy text place (by simpa [hdc] using hd)).2
    · exact h.saving d copy text place (by simpa [hdc] using hd)
  unlocked d copy text place hd hholder := by
    by_cases hdc : d = c
    · exact (hsaving copy text place (by simpa [hdc] using hd)).1
    · exact h.unlocked d copy text place (by simpa [hdc] using hd) hholder
  held d hd := by
    obtain ⟨copy, text, place, hcall, hrest⟩ := h.held d hd
    have hdc : d ≠ c := by
      rintro rfl
      exact hidle _ _ _ hcall
    exact ⟨copy, text, place, by simpa [hdc] using hcall, hrest⟩
  newest hissued := by
    obtain hstored | ⟨d, copy, text, place, hcall, hversion⟩ := h.newest hissued
    · exact Or.inl hstored
    · have hdc : d ≠ c := by
        rintro rfl
        exact hidle _ _ _ hcall
      exact Or.inr ⟨d, copy, text, place, by simpa [hdc] using hcall, hversion⟩

/-- A save of the user is the newest one, and its call waits for the lock. -/
theorem Ordered.save (hcodec : codec.Faithful) (h : Ordered codec s) (hidle : s.calls c = none)
    {record : ExperimentRecord} {text : String} (hprint : codec.print record = .ok text)
    (hfinite : Finite record) :
    Ordered codec { s.setCall c (some (.saving ⟨s.issued.length, record⟩ text .waiting)) with
      issued := s.issued ++ [record.userFields] } where
  stored stored hstored := (h.stored stored hstored).append _
  analyzing d copy hd := by
    obtain ⟨hread, hcopy⟩ := h.analyzing d copy (analyzing_of_setCall (by simp) hd)
    exact ⟨hread, List.getElem?_append_left (List.getElem?_eq_some_iff.mp hcopy).1 ▸ hcopy⟩
  saving d copy text' place hd := by
    by_cases hdc : d = c
    · obtain ⟨rfl, rfl, -⟩ : ⟨s.issued.length, record⟩ = copy ∧ text = text' ∧
          Place.waiting = place := by simpa [hdc] using hd
      obtain ⟨r, hparse, hread, hfields⟩ := hcodec record text hprint hfinite
      exact ⟨r, hparse, hread, by simp [hfields]⟩
    · exact (h.saving d copy text' place (by simpa [hdc] using hd)).append _
  unlocked d copy text' place hd hholder := by
    by_cases hdc : d = c
    · obtain ⟨-, -, hplace⟩ : ⟨s.issued.length, record⟩ = copy ∧ text = text' ∧
          Place.waiting = place := by simpa [hdc] using hd
      exact hplace.symm
    · exact h.unlocked d copy text' place (by simpa [hdc] using hd) hholder
  held d hd := by
    obtain ⟨copy, text', place, hcall, hrest⟩ := h.held d hd
    have hdc : d ≠ c := by
      rintro rfl
      rw [hidle] at hcall
      cases hcall
    exact ⟨copy, text', place, by simpa [hdc] using hcall, hrest⟩
  newest _ := Or.inr ⟨c, ⟨s.issued.length, record⟩, text, .waiting, by simp, by simp⟩

/-- The call that takes the lock writes a text that is not older than the stored one. -/
theorem Ordered.write (h : Ordered codec s) {copy : Copy} {text : String}
    (hcall : s.calls c = some (.saving copy text .waiting)) (hholder : s.holder = none)
    (hcurrent : ∀ stored ∈ s.record, stored.1 ≤ copy.version) :
    Ordered codec { s.setCall c (some (.saving copy text .wrote)) with
      temp := some (copy.version, text)
      holder := some c } where
  stored := h.stored
  analyzing d copy' hd := h.analyzing d copy' (analyzing_of_setCall (by simp) hd)
  saving d copy' text' place hd := by
    by_cases hdc : d = c
    · obtain ⟨rfl, rfl, -⟩ : copy = copy' ∧ text = text' ∧ Place.wrote = place := by
        simpa [hdc] using hd
      exact h.saving c copy text .waiting hcall
    · exact h.saving d copy' text' place (by simpa [hdc] using hd)
  unlocked d copy' text' place hd hlock := by
    have hdc : d ≠ c := by
      rintro rfl
      exact hlock rfl
    exact h.unlocked d copy' text' place (by simpa [hdc] using hd) (by simp [hholder])
  held d hd := by
    obtain rfl : c = d := Option.some.inj hd
    exact ⟨copy, text, .wrote, by simp, by simp, rfl, hcurrent⟩
  newest hissued := by
    obtain hstored | ⟨d, copy', text', place, hd, hversion⟩ := h.newest hissued
    · exact Or.inl hstored
    · by_cases hdc : d = c
      · subst hdc
        obtain ⟨rfl, rfl, -⟩ : copy = copy' ∧ text = text' ∧ Place.waiting = place := by
          simpa [hcall] using hd
        exact Or.inr ⟨d, copy, text, .wrote, by simp, hversion⟩
      · exact Or.inr ⟨d, copy', text', place, by simpa [hdc] using hd, hversion⟩

/-- A call that has begun to write holds the lock. -/
theorem Ordered.holds_lock (h : Ordered codec s) {copy : Copy} {text : String} {place : Place}
    (hcall : s.calls c = some (.saving copy text place)) (hplace : place ≠ .waiting) :
    s.holder = some c ∧ s.temp = some (copy.version, text) ∧
      ∀ stored ∈ s.record, stored.1 ≤ copy.version := by
  have hholder : s.holder = some c := by
    by_contra hother
    exact hplace (h.unlocked c copy text place hcall hother)
  obtain ⟨copy', text', place', hcall', -, htemp, hstored⟩ := h.held c hholder
  obtain ⟨rfl, rfl, -⟩ : copy = copy' ∧ text = text' ∧ place = place' := by
    simpa [hcall] using hcall'
  exact ⟨hholder, htemp, hstored⟩

/-- The call that holds the lock has the newest text, if the newest one is stored. -/
theorem Ordered.version_of_newest (h : Ordered codec s) {copy : Copy} {text : String}
    {place : Place} (hcall : s.calls c = some (.saving copy text place))
    (hplace : place ≠ .waiting) {stored : Nat × String} (hstored : stored ∈ s.record)
    (hnewest : stored.1 + 1 = s.issued.length) : copy.version + 1 = s.issued.length := by
  have hle := (h.holds_lock hcall hplace).2.2 stored hstored
  have hlt := (h.saving c copy text place hcall).lt
  dsimp only at hlt
  omega

theorem Ordered.remove (h : Ordered codec s) {copy : Copy} {text : String}
    (hcall : s.calls c = some (.saving copy text .wrote)) :
    Ordered codec { s.setCall c (some (.saving copy text .removed)) with record := none } where
  stored _ hstored := by cases hstored
  analyzing d copy' hd := h.analyzing d copy' (analyzing_of_setCall (by simp) hd)
  saving d copy' text' place hd := by
    by_cases hdc : d = c
    · obtain ⟨rfl, rfl, -⟩ : copy = copy' ∧ text = text' ∧ Place.removed = place := by
        simpa [hdc] using hd
      exact h.saving c copy text .wrote hcall
    · exact h.saving d copy' text' place (by simpa [hdc] using hd)
  unlocked d copy' text' place hd hlock := by
    have hdc : d ≠ c := by
      rintro rfl
      exact hlock (h.holds_lock hcall (by simp)).1
    exact h.unlocked d copy' text' place (by simpa [hdc] using hd) hlock
  held d hd := by
    obtain ⟨hholder, htemp, -⟩ := h.holds_lock hcall (by simp)
    obtain rfl : c = d := Option.some.inj (hholder.symm.trans hd)
    exact ⟨copy, text, .removed, by simp, by simp, htemp, fun _ hstored => by cases hstored⟩
  newest hissued := by
    obtain ⟨stored, hstored, hversion⟩ | ⟨d, copy', text', place, hd, hversion⟩ :=
      h.newest hissued
    · exact Or.inr ⟨c, copy, text, .removed, by simp,
        h.version_of_newest hcall (by simp) hstored hversion⟩
    · by_cases hdc : d = c
      · subst hdc
        obtain ⟨rfl, rfl, -⟩ : copy = copy' ∧ text = text' ∧ Place.wrote = place := by
          simpa [hcall] using hd
        exact Or.inr ⟨d, copy, text, .removed, by simp, hversion⟩
      · exact Or.inr ⟨d, copy', text', place, by simpa [hdc] using hd, hversion⟩

theorem Ordered.rename (h : Ordered codec s) {copy : Copy} {text : String}
    (hcall : s.calls c = some (.saving copy text .removed)) :
    Ordered codec { s.setCall c none with record := s.temp, temp := none, holder := none } where
  stored stored hstored := by
    obtain ⟨-, htemp, -⟩ := h.holds_lock hcall (by simp)
    obtain rfl : (copy.version, text) = stored := Option.some.inj (htemp.symm.trans hstored)
    exact h.saving c copy text .removed hcall
  analyzing d copy' hd := h.analyzing d copy' (analyzing_of_setCall (by simp) hd)
  saving d copy' text' place hd := by
    by_cases hdc : d = c
    · simp [hdc] at hd
    · exact h.saving d copy' text' place (by simpa [hdc] using hd)
  unlocked d copy' text' place hd _ := by
    by_cases hdc : d = c
    · simp [hdc] at hd
    · have hlock : s.holder ≠ some d := by
        rw [(h.holds_lock hcall (by simp)).1]
        exact fun heq => hdc (Option.some.inj heq).symm
      exact h.unlocked d copy' text' place (by simpa [hdc] using hd) hlock
  held d hd := by cases hd
  newest hissued := by
    obtain ⟨-, htemp, -⟩ := h.holds_lock hcall (by simp)
    have hstays : copy.version + 1 = s.issued.length →
        ∃ stored ∈ s.temp, stored.1 + 1 = s.issued.length :=
      fun hversion => ⟨(copy.version, text), htemp, hversion⟩
    obtain ⟨stored, hstored, hversion⟩ | ⟨d, copy', text', place, hd, hversion⟩ :=
      h.newest hissued
    · exact Or.inl (hstays (h.version_of_newest hcall (by simp) hstored hversion))
    · by_cases hdc : d = c
      · subst hdc
        obtain ⟨rfl, rfl, -⟩ : copy = copy' ∧ text = text' ∧ Place.removed = place := by
          simpa [hcall] using hd
        exact Or.inl (hstays hversion)
      · exact Or.inr ⟨d, copy', text', place, by simpa [hdc] using hd, hversion⟩

theorem ordered_start (codec : Codec) : Ordered codec start where
  stored _ hstored := by cases hstored
  analyzing _ _ hcall := by cases hcall
  saving _ _ _ _ hcall := by cases hcall
  unlocked _ _ _ _ hcall := by cases hcall
  held _ hholder := by cases hholder
  newest hissued := absurd rfl hissued

/-- The save of an analysis carries the version of the copy that the analysis started from. -/
theorem Ordered.finish (hcodec : codec.Faithful) (h : Ordered codec s) {copy : Copy}
    (hcall : s.calls c = some (.analyzing copy)) {times : Times} {result : CachedResult}
    {text : String}
    (hprint : codec.print (stamp times (withResult times result copy.record)) = .ok text) :
    Ordered codec (s.setCall c (some (.saving
      ⟨copy.version, stamp times (withResult times result copy.record)⟩ text .waiting))) := by
  refine h.setCall (by simp [hcall]) (fun copy' text' place hsaving => ?_) (by simp)
  obtain ⟨rfl, rfl, rfl⟩ : ⟨copy.version, _⟩ = copy' ∧ text = text' ∧ Place.waiting = place := by
    simpa using hsaving
  obtain ⟨hfinite, hissued⟩ := h.analyzing c copy hcall
  obtain ⟨r, hparse, hread, hfields⟩ := hcodec _ _ hprint ((hfinite.withResult _ _).stamp _)
  exact ⟨rfl, r, hparse, hread, hfields ▸ hissued⟩

theorem step_ordered (hcodec : codec.Faithful) {a : Action} (h : Ordered codec s)
    (hcurrent : Current s a) (hstep : step codec id s a = some t) : Ordered codec t := by
  cases a with
  | save c times record =>
      simp only [step] at hstep
      split at hstep
      · next record text hidle hprepare =>
        obtain rfl := Option.some.inj hstep
        obtain ⟨rfl, hprint⟩ := prepare_eq_some hprepare
        exact h.save hcodec hidle hprint (hcurrent.stamp times)
      · cases hstep
  | read c =>
      simp only [step] at hstep
      split at hstep
      · next version text hidle hrecord =>
        split at hstep
        · next record hparse =>
          obtain rfl := Option.some.inj hstep
          refine h.setCall (by simp [hidle]) (by simp) fun copy hcopy => ?_
          obtain ⟨r, hparse', hread⟩ := h.stored _ hrecord
          obtain rfl : record = r := Except.ok.inj (hparse.symm.trans hparse')
          obtain rfl : ⟨version, record⟩ = copy := by simpa using hcopy
          exact hread
        · -- a record that cannot be read, or none
          obtain rfl := Option.some.inj hstep
          exact h
      · obtain rfl := Option.some.inj hstep
        exact h
      · cases hstep
  | finish c times result =>
      simp only [step] at hstep
      split at hstep
      · next copy hcall =>
        split at hstep
        · next record text hprepare =>
          obtain rfl := Option.some.inj hstep
          obtain ⟨rfl, hprint⟩ := prepare_eq_some hprepare
          exact h.finish hcodec hcall hprint
        · -- a result that cannot be printed ends the call
          obtain rfl := Option.some.inj hstep
          exact h.setCall (by simp [hcall]) (by simp) (by simp)
      · cases hstep
  | write c =>
      simp only [step] at hstep
      split at hstep
      · next copy text hcall hholder =>
        obtain rfl := Option.some.inj hstep
        exact h.write hcall hholder (hcurrent _ _ _ hcall)
      · cases hstep
  | remove c =>
      simp only [step] at hstep
      split at hstep
      · next copy text hcall =>
        obtain rfl := Option.some.inj hstep
        exact h.remove hcall
      · cases hstep
  | rename c =>
      simp only [step] at hstep
      split at hstep
      · next copy text hcall =>
        obtain rfl := Option.some.inj hstep
        exact h.rename hcall
      · cases hstep

theorem Ordered.kept (h : Ordered codec s) (hsettled : Settled s) : Kept codec s := by
  intro fields hlast
  have hissued : s.issued ≠ [] := by
    rintro hnil
    simp [hnil] at hlast
  obtain ⟨⟨version, text⟩, hstored, hversion⟩ | ⟨c, copy, text, place, hcall, -⟩ :=
    h.newest hissued
  · obtain ⟨r, hparse, -, hfields⟩ := h.stored _ hstored
    refine ⟨version, text, r, hstored, hparse, ?_⟩
    rw [List.getLast?_eq_getElem?, ← hversion, Nat.add_sub_cancel, hfields] at hlast
    exact Option.some.inj hlast
  · exact absurd hcall (hsettled c copy text place)

end Invariant

/-! ## Calls that nothing interrupts -/

section Calls

variable {codec : Codec} {id : String} {s : State} {c : Nat}

/-- A save of the user that nothing interrupts. -/
theorem run_save {times : Times} {record record' : ExperimentRecord} {text : String}
    (hidle : s.calls c = none) (hfree : s.holder = none)
    (hprepare : prepare codec id times record = some (record', text)) :
    run (step codec id) s [.save c times record, .write c, .remove c, .rename c] =
      some ⟨some (s.issued.length, text), none, none, s.calls, s.issued ++ [record'.userFields]⟩ := by
  have hcalls : Function.update s.calls c none = s.calls := by
    rw [← hidle, Function.update_eq_self]
  simp [run_cons, step, State.setCall, hidle, hfree, hprepare, hcalls]

theorem run_read {version : Nat} {text : String} {record : ExperimentRecord}
    (hidle : s.calls c = none) (hrecord : s.record = some (version, text))
    (hparse : codec.parse text = .ok record) :
    run (step codec id) s [.read c] = some (s.setCall c (some (.analyzing ⟨version, record⟩))) := by
  simp [run_cons, step, hidle, hrecord, hparse]

/-- What analyze does when it has a result, if nothing interrupts it. -/
theorem run_finish {times : Times} {result : CachedResult} {copy : Copy}
    {record : ExperimentRecord} {text : String} (hcall : s.calls c = some (.analyzing copy))
    (hfree : s.holder = none)
    (hprepare :
      prepare codec id times (withResult times result copy.record) = some (record, text)) :
    run (step codec id) s [.finish c times result, .write c, .remove c, .rename c] =
      some ⟨some (copy.version, text), none, none, Function.update s.calls c none, s.issued⟩ := by
  simp [run_cons, step, State.setCall, hcall, hfree, hprepare]

/-- The user's save may take the lock, as it is the newest one. -/
theorem meets_save {times : Times} {record : ExperimentRecord} (hfinite : Finite record)
    (hstored : ∀ stored ∈ s.record, stored.1 ≤ s.issued.length) :
    Meets (step codec id) Current s [.save c times record, .write c, .remove c, .rename c] := by
  refine ⟨hfinite, fun t ht => ⟨?_, fun _ _ => ⟨trivial, fun _ _ => ⟨trivial, fun _ _ => trivial⟩⟩⟩⟩
  simp only [step] at ht
  split at ht
  · obtain rfl := Option.some.inj ht
    intro copy text place hcall stored hrecord
    obtain ⟨rfl, -⟩ := by simpa using hcall
    exact hstored stored hrecord
  · cases ht

end Calls

/-- A save of the user between the reading and the saving of an analysis is replaced. -/
theorem run_overtaken {codec : Codec} {id : String} {times : Times} {result : CachedResult}
    {first first' second second' parsed parsed' : ExperimentRecord} {text₁ text₂ text₃ : String}
    (hfirst : prepare codec id times first = some (first', text₁))
    (hparse : codec.parse text₁ = .ok parsed)
    (hsecond : prepare codec id times second = some (second', text₂))
    (hfinish : prepare codec id times (withResult times result parsed) = some (parsed', text₃)) :
    ∃ s, run (step codec id) start
        ([.save 0 times first, .write 0, .remove 0, .rename 0] ++ [.read 1] ++
          [.save 2 times second, .write 2, .remove 2, .rename 2] ++
          [.finish 1 times result, .write 1, .remove 1, .rename 1]) = some s ∧
      Settled s ∧ s.record = some (0, text₃) ∧
      s.issued = [first'.userFields, second'.userFields] := by
  have hsave := @run_save codec id start 0 times _ _ _ rfl rfl hfirst
  rw [run_append, run_append, run_append, hsave, Option.bind_some, run_read rfl rfl hparse,
    Option.bind_some, run_save rfl rfl hsecond, Option.bind_some,
    @run_finish codec id _ 1 times result ⟨0, parsed⟩ _ _ (by simp [start]) rfl hfinish]
  refine ⟨_, rfl, fun c copy text place => ?_, rfl, rfl⟩
  by_cases hc : c = 1 <;> simp [hc, start]

/-- The calls of an analysis that holds the lock when the user saves again. -/
def queued (times : Times) (result : CachedResult) (second : ExperimentRecord) : List Action :=
  [.read 1, .finish 1 times result, .write 1, .save 2 times second, .remove 1, .rename 1,
    .write 2, .remove 2, .rename 2]

section Queued

variable {codec : Codec} {id : String} {times : Times} {result : CachedResult}
  {first first' second second' parsed parsed' : ExperimentRecord} {text₁ text₂ text₃ : String}

/-- The save of the user waits for the analysis, and takes the place of what it stores. -/
theorem run_queued (hfirst : prepare codec id times first = some (first', text₁))
    (hparse : codec.parse text₁ = .ok parsed)
    (hsecond : prepare codec id times second = some (second', text₂))
    (hfinish : prepare codec id times (withResult times result parsed) = some (parsed', text₃)) :
    ∃ s, run (step codec id) start
        ([.save 0 times first, .write 0, .remove 0, .rename 0] ++ queued times result second) =
          some s ∧
      Settled s ∧ s.record = some (1, text₂) ∧
      s.issued = [first'.userFields, second'.userFields] := by
  rw [run_append, @run_save codec id start 0 times _ _ _ rfl rfl hfirst, Option.bind_some]
  simp only [queued, run_cons, run_nil, step, State.setCall, start, hparse, hsecond, hfinish,
    Function.update_self, Option.bind_some]
  refine ⟨_, rfl, fun c copy text place => ?_, rfl, rfl⟩
  by_cases hone : c = 1 <;> by_cases htwo : c = 2 <;> simp [hone, htwo]

theorem meets_queued (hfirst : prepare codec id times first = some (first', text₁))
    (hparse : codec.parse text₁ = .ok parsed)
    (hsecond : prepare codec id times second = some (second', text₂))
    (hfinish : prepare codec id times (withResult times result parsed) = some (parsed', text₃))
    (hfinite : Finite first) (hfinite' : Finite second) :
    Meets (step codec id) Current start
      ([.save 0 times first, .write 0, .remove 0, .rename 0] ++ queued times result second) := by
  have hsave := @run_save codec id start 0 times _ _ _ rfl rfl hfirst
  refine (meets_append hsave).mpr ⟨meets_save hfinite (fun _ hstored => by cases hstored), ?_⟩
  -- The analysis stores a copy of the first save, and the user's save is the second one.
  simp +contextual [queued, Meets, Current, step, State.setCall, start, hparse, hsecond, hfinish,
    hfinite']

end Queued

/-! ## Edits of the user -/

def draftTimes : Times := ⟨1000, 0, 1000, 1000⟩

theorem draft_read : ∀ d ∈ drafts, (drafts.find? fun d' => d'.2 = d.2) = some d := by
  decide +kernel

theorem finite_draft (notes : String) (lastResult : Option CachedResult) :
    Finite (draft notes lastResult) := by
  have hzero : (0 : Binary64).isFinite := by decide +kernel
  exact ⟨hzero, hzero⟩

theorem draft_finite : ∀ d ∈ drafts, Finite d.1 := by
  simp [drafts, finite_draft]

theorem draftCodec_faithful : draftCodec.Faithful := by
  intro r text h _
  simp only [draftCodec] at h
  split at h
  · next d hfind =>
    obtain rfl := Except.ok.inj h
    have hfields := List.find?_some hfind
    have hmem := List.mem_of_find?_eq_some hfind
    simp only [decide_eq_true_eq] at hfields
    refine ⟨d.1, ?_, draft_finite d hmem, hfields.1⟩
    simp only [draftCodec, draft_read d hmem]
  · cases h

theorem parse_first : draftCodec.parse (draftText "first" false) = .ok (draft "first" none) := by
  have h := draft_read (draft "first" none, draftText "first" false) (by simp [drafts])
  simp only [draftCodec, h]

theorem parse_result :
    draftCodec.parse (draftText "first" true) = .ok (draft "first" (some noResult)) := by
  have h := draft_read (draft "first" (some noResult), draftText "first" true) (by simp [drafts])
  simp only [draftCodec, h]

theorem prepare_first : prepare draftCodec "exp-1" draftTimes (draft "first" none) =
    some (draft "first" none, draftText "first" false) := rfl

theorem prepare_second : prepare draftCodec "exp-1" draftTimes (draft "second" none) =
    some (draft "second" none, draftText "second" false) := rfl

theorem prepare_result :
    prepare draftCodec "exp-1" draftTimes (withResult draftTimes noResult (draft "first" none)) =
      some (draft "first" (some noResult), draftText "first" true) := rfl


/-- In a run in which no call replaces a stored record with one from an earlier save, what is
stored once no call is saving are the fields of the user's last save. -/
theorem last_save_kept (codec : Codec) (hcodec : codec.Faithful) (id : String)
    (actions : List Action) (s : State) (hrun : run (step codec id) start actions = some s)
    (hcurrent : Meets (step codec id) Current start actions) (hsettled : Settled s) :
    Kept codec s := by
  have hordered : Ordered codec s :=
    invariant_of_meets (fun _ _ _ h hcurrent hstep => step_ordered hcodec h hcurrent hstep)
      (ordered_start codec) hcurrent hrun
  exact hordered.kept hsettled

/-- The user saves again while an analysis of what was saved before holds the lock. -/
theorem last_save_kept_edited : ∃ s,
    s.issued = [(draft "first" none).userFields, (draft "second" none).userFields] ∧
      s.record = some (1, draftText "second" false) ∧ Kept draftCodec s := by
  obtain ⟨s, hrun, hsettled, hrecord, hissued⟩ :=
    run_queued prepare_first parse_first prepare_second prepare_result
  have hcurrent := meets_queued prepare_first parse_first prepare_second prepare_result
    (finite_draft "first" none) (finite_draft "second" none)
  exact ⟨s, hissued, hrecord,
    last_save_kept draftCodec draftCodec_faithful "exp-1" _ s hrun hcurrent hsettled⟩

/-- Analyze reads the first record, and saves it after the user has saved another one. -/
theorem edit_lost : ¬∀ (codec : Codec) (id : String) (actions : List Action) (s : State),
    codec.Faithful → run (step codec id) start actions = some s → Settled s → Kept codec s := by
  intro h
  obtain ⟨s, hrun, hsettled, hrecord, hissued⟩ :=
    run_overtaken prepare_first parse_first prepare_second prepare_result
  obtain ⟨version, text, r, hstored, hparse, hfields⟩ :=
    h draftCodec "exp-1" _ s draftCodec_faithful hrun hsettled (draft "second" none).userFields
      (by rw [hissued]; rfl)
  obtain ⟨-, rfl⟩ := Prod.mk.inj (Option.some.inj (hrecord.symm.trans hstored))
  obtain rfl := Except.ok.inj (parse_result.symm.trans hparse)
  exact absurd hfields (by decide +kernel)

end PowerForensics.ExperimentStore
