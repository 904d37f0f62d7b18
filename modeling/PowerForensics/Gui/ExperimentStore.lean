import PowerForensics.Binary64.Basic
import PowerForensics.Text.Lines

/-! # Stored experiments

An experiment is a record that is kept as text in a file of its own. A record is saved through a
temporary file that takes the place of the stored one. Every step on the files may fail, and the
process may stop at every step.
-/

namespace PowerForensics.ExperimentStore

open Lines

/-! ## Records -/

structure BridgeError where
  code : String
  message : String
  detail : Option String
  deriving DecidableEq

structure RunRecord where
  id : String
  label : String
  group : String
  order : Nat
  pairId : Option Nat
  sessionPath : String
  fromMs : Option Nat
  toMs : Option Nat
  included : Bool
  source : String
  notes : String
  capturedMs : Option Nat
  deriving DecidableEq

structure CachedResult where
  analysisVersion : Nat
  classification : String
  validity : String
  absoluteDelta : Option Binary64
  relativeDelta : Option Binary64
  computedMs : Nat
  deriving DecidableEq

/-- The record of an experiment, without the state of guided runs. -/
structure ExperimentRecord where
  schema : Nat
  id : String
  name : String
  question : String
  primaryMetric : String
  primaryLabel : String
  primaryUnit : String
  direction : String
  pairing : String
  baselineLabel : String
  treatmentLabel : String
  settleS : Binary64
  measureS : Binary64
  repetitions : Nat
  randomized : Bool
  orderSeed : Option Nat
  collectors : Option String
  preset : Option String
  notes : String
  status : String
  createdMs : Nat
  updatedMs : Nat
  runs : List RunRecord
  lastResult : Option CachedResult
  deriving DecidableEq

def experimentSchema : Nat := 1

/-- The texts and runs that a user edits. -/
structure UserFields where
  name : String
  question : String
  primaryMetric : String
  primaryLabel : String
  primaryUnit : String
  direction : String
  pairing : String
  baselineLabel : String
  treatmentLabel : String
  notes : String
  status : String
  runs : List RunRecord
  deriving DecidableEq

def ExperimentRecord.userFields (r : ExperimentRecord) : UserFields :=
  ⟨r.name, r.question, r.primaryMetric, r.primaryLabel, r.primaryUnit, r.direction, r.pairing,
    r.baselineLabel, r.treatmentLabel, r.notes, r.status, r.runs⟩

/-- How records are written as text and read back. -/
structure Codec where
  print : ExperimentRecord → Except String String
  parse : String → Except String ExperimentRecord

/-- What the clock and the counter of new ids show during a call. -/
structure Times where
  idMs : Nat
  counter : Nat
  createdMs : Nat
  updatedMs : Nat

def newId (times : Times) : String := s!"exp-{times.idMs}-{times.counter}"

/-- An id names a file of its own. -/
def recordPath (id : String) : Except BridgeError String :=
  if id = "" ∨ ¬id.toList.all fun c => c.isAlphanum || c = '-' || c = '_' then
    .error ⟨"bad-request", "invalid experiment id", none⟩
  else .ok s!"{id}.json"

/-! ## Files -/

/-- The files of one experiment. -/
structure Files where
  record : Option String
  temp : Option String
  deriving DecidableEq

/-- The files of the experiments by their ids. -/
abbrev Disk := String → Files

section Codec

variable (codec : Codec)

def loadRecord (text : String) : Except BridgeError ExperimentRecord :=
  match codec.parse text with
  | .ok record => .ok record
  | .error e => .error ⟨"experiment-corrupt", "experiment file is not valid JSON", some e⟩

def get (disk : Disk) (id : String) : Except BridgeError ExperimentRecord := do
  let _ ← recordPath id
  match (disk id).record with
  | none => .error ⟨"not-found", s!"experiment {id} not found", none⟩
  | some text => loadRecord codec text

/-! ## Saving -/

/-- How a step on a file ends. -/
inductive Fate where
  | done
  | failed (error : String)
  | stopped
  deriving DecidableEq

/-- What happens to the steps of a call. When the write does not end, a part of the text is
in the file. -/
structure Faults where
  createDir : Fate
  write : Fate
  written : Nat
  remove : Fate
  rename : Fate

inductive Outcome where
  | returned (result : Except BridgeError ExperimentRecord)
  | stopped

def ioError (message detail : String) : Outcome :=
  .returned (.error ⟨"io-error", message, some detail⟩)

/-- A record has a name and a metric. -/
def validate (record : ExperimentRecord) : Except BridgeError Unit :=
  if trim record.name.toList = [] then
    .error ⟨"bad-request", "experiment name is required", none⟩
  else if trim record.primaryMetric.toList = [] then
    .error ⟨"bad-request", "a primary metric is required", none⟩
  else .ok ()

/-- What is filled in before a record is written. -/
def stamp (times : Times) (record : ExperimentRecord) : ExperimentRecord :=
  { record with
    id := if record.id = "" then newId times else record.id
    schema := if record.schema = 0 then experimentSchema else record.schema
    createdMs := if record.createdMs = 0 then times.createdMs else record.createdMs
    updatedMs := times.updatedMs }

/-- The stored file is removed, and then the temporary one is renamed. That the removal fails
is ignored. -/
def replaceFile (faults : Faults) (record : ExperimentRecord) (files : Files) :
    Outcome × Files :=
  match faults.remove with
  | .stopped => (.stopped, files)
  | remove =>
      let files := if remove = .done then { files with record := none } else files
      match faults.rename with
      | .stopped => (.stopped, files)
      | .failed e => (ioError "cannot finalize experiment file" e, files)
      | .done => (.returned (.ok record), ⟨files.temp, none⟩)

def writeFiles (faults : Faults) (record : ExperimentRecord) (text : String) (files : Files) :
    Outcome × Files :=
  let part := { files with temp := some (.ofList (text.toList.take faults.written)) }
  match faults.write with
  | .stopped => (.stopped, part)
  | .failed e => (ioError "cannot write experiment" e, part)
  | .done => replaceFile faults record { files with temp := some text }

def save (times : Times) (faults : Faults) (record : ExperimentRecord) (disk : Disk) :
    Outcome × Disk :=
  match validate record with
  | .error e => (.returned (.error e), disk)
  | .ok () =>
      let record := stamp times record
      match faults.createDir with
      | .stopped => (.stopped, disk)
      | .failed e => (ioError "cannot create experiments directory" e, disk)
      | .done =>
          match recordPath record.id with
          | .error e => (.returned (.error e), disk)
          | .ok _ =>
              match codec.print record with
              | .error e =>
                  (.returned (.error ⟨"internal", "cannot serialize experiment", some e⟩), disk)
              | .ok text =>
                  let result := writeFiles faults record text (disk record.id)
                  (result.1, Function.update disk record.id result.2)

/-! ## What is stored after a call -/

variable (times : Times) (faults : Faults) (record : ExperimentRecord) (disk : Disk)

/-- The stored file has been removed, and the new one does not take its place. -/
structure Exposed : Prop where
  valid : validate record = .ok ()
  created : faults.createDir = .done
  named : recordPath (stamp times record).id = .ok s!"{(stamp times record).id}.json"
  printed : ∃ text, codec.print (stamp times record) = .ok text
  written : faults.write = .done
  removed : faults.remove = .done
  left : faults.rename ≠ .done

/-- What a later call of get finds is the stored record or the new one, as a whole. -/
def Atomic : Prop :=
  let id := (stamp times record).id
  let disk' := (save codec times faults record disk).2
  get codec disk' id = get codec disk id ∨
    ∃ text, codec.print (stamp times record) = .ok text ∧
      get codec disk' id = loadRecord codec text

variable {codec times faults record disk}

theorem replaceFile_cases (old text : Option String) :
    let files := (replaceFile faults record ⟨old, text⟩).2
    files.record = old ∨ files.record = text ∨
      (faults.remove = .done ∧ faults.rename ≠ .done ∧ files.record = none) := by
  unfold replaceFile
  cases hremove : faults.remove with
  | stopped => exact Or.inl rfl
  | failed e =>
      cases hrename : faults.rename with
      | stopped => exact Or.inl rfl
      | failed e' => exact Or.inl rfl
      | done => exact Or.inr (Or.inl rfl)
  | done =>
      cases hrename : faults.rename with
      | stopped => exact Or.inr (Or.inr ⟨rfl, by simp, rfl⟩)
      | failed e => exact Or.inr (Or.inr ⟨rfl, by simp, rfl⟩)
      | done => exact Or.inr (Or.inl rfl)

theorem replaceFile_exposed (hremove : faults.remove = .done) (hrename : faults.rename ≠ .done)
    (files : Files) : (replaceFile faults record files).2.record = none := by
  unfold replaceFile
  rw [hremove]
  cases hfate : faults.rename with
  | done => exact absurd hfate hrename
  | failed e => rfl
  | stopped => rfl

theorem writeFiles_cases (text : String) (files : Files) :
    let files' := (writeFiles faults record text files).2
    files'.record = files.record ∨ files'.record = some text ∨
      (faults.write = .done ∧ faults.remove = .done ∧ faults.rename ≠ .done ∧
        files'.record = none) := by
  unfold writeFiles
  cases hwrite : faults.write with
  | stopped => exact Or.inl rfl
  | failed e => exact Or.inl rfl
  | done =>
      obtain hold | hnew | ⟨hremove, hrename, hnone⟩ :=
        @replaceFile_cases faults record files.record (some text)
      · exact Or.inl hold
      · exact Or.inr (Or.inl hnew)
      · exact Or.inr (Or.inr ⟨rfl, hremove, hrename, hnone⟩)

/-- Everything that a call may leave in the place of the stored record. -/
theorem save_cases :
    let id := (stamp times record).id
    let files := (save codec times faults record disk).2 id
    files.record = (disk id).record ∨
      (∃ text, recordPath id = .ok s!"{id}.json" ∧
        codec.print (stamp times record) = .ok text ∧ files.record = some text) ∨
      (Exposed codec times faults record ∧ files.record = none) := by
  unfold save
  cases hvalid : validate record with
  | error e => exact Or.inl rfl
  | ok _ =>
      cases hcreate : faults.createDir with
      | stopped => exact Or.inl rfl
      | failed e => exact Or.inl rfl
      | done =>
          cases hpath : recordPath (stamp times record).id with
          | error e => exact Or.inl (by simp only [hpath])
          | ok path =>
              obtain rfl : path = s!"{(stamp times record).id}.json" := by
                unfold recordPath at hpath
                split at hpath
                · cases hpath
                · exact (Except.ok.inj hpath).symm
              cases hprint : codec.print (stamp times record) with
              | error e => exact Or.inl (by simp only [hpath, hprint])
              | ok text =>
                  simp only [hpath, hprint, Function.update_self]
                  obtain hold | hnew | ⟨hwrite, hremove, hrename, hnone⟩ :=
                    @writeFiles_cases faults (stamp times record) text
                      (disk (stamp times record).id)
                  · exact Or.inl hold
                  · exact Or.inr (Or.inl ⟨text, trivial, rfl, hnew⟩)
                  · exact Or.inr (Or.inr ⟨⟨hvalid, hcreate, hpath, ⟨text, hprint⟩, hwrite,
                      hremove, hrename⟩, hnone⟩)

theorem save_exposed (h : Exposed codec times faults record) :
    ((save codec times faults record disk).2 (stamp times record).id).record = none := by
  obtain ⟨text, hprint⟩ := h.printed
  have hfile := @replaceFile_exposed faults (stamp times record) h.removed h.left
    { disk (stamp times record).id with temp := some text }
  unfold save
  simp only [h.valid, h.created, h.named, hprint, Function.update_self, writeFiles, h.written]
  exact hfile

/-- The files of other experiments are left alone. -/
theorem save_frame {id : String} (hid : id ≠ (stamp times record).id) :
    (save codec times faults record disk).2 id = disk id := by
  unfold save
  split
  · rfl
  · dsimp only
    split
    · rfl
    · rfl
    · split
      · rfl
      · split
        · rfl
        · exact Function.update_of_ne hid _ _

theorem loadRecord_ne_notFound (text id : String) :
    loadRecord codec text ≠ .error ⟨"not-found", s!"experiment {id} not found", none⟩ := by
  unfold loadRecord
  split
  · exact fun h => by cases h
  · exact fun h => by simp at h

theorem get_of_named {id path : String} (hpath : recordPath id = .ok path) (disk : Disk) :
    get codec disk id =
      match (disk id).record with
      | none => .error ⟨"not-found", s!"experiment {id} not found", none⟩
      | some text => loadRecord codec text := by
  rw [get, hpath]
  rfl

theorem Exposed.not_atomic (h : Exposed codec times faults record)
    (hstored : (disk (stamp times record).id).record.isSome) :
    ¬Atomic codec times faults record disk := by
  intro hatomic
  obtain ⟨stored, hstored⟩ := Option.isSome_iff_exists.mp hstored
  have hnone := @save_exposed _ _ _ _ disk h
  simp only [Atomic, get_of_named h.named, hnone, hstored] at hatomic
  obtain hsame | ⟨text, -, hnew⟩ := hatomic
  · exact loadRecord_ne_notFound _ _ hsame.symm
  · exact loadRecord_ne_notFound _ _ hnew.symm

/-- When saving a record is atomic: not when the stored file has been removed and the new one
does not take its place. -/
theorem save_atomic_iff (codec : Codec) (times : Times) (faults : Faults)
    (record : ExperimentRecord) (disk : Disk) :
    Atomic codec times faults record disk ↔
      ¬(Exposed codec times faults record ∧ (disk (stamp times record).id).record.isSome) := by
  refine ⟨fun hatomic hexposed => hexposed.1.not_atomic hexposed.2 hatomic, fun hsafe => ?_⟩
  obtain hsame | ⟨text, hpath, hprint, hnew⟩ | ⟨hexposed, hnone⟩ :=
    @save_cases codec times faults record disk
  · exact Or.inl (by simp only [get, hsame])
  · refine Or.inr ⟨text, hprint, ?_⟩
    simp only [get_of_named hpath, hnew]
  · have hnothing : (disk (stamp times record).id).record = none := by
      by_contra hstored
      exact hsafe ⟨hexposed, Option.isSome_iff_ne_none.mpr hstored⟩
    exact Or.inl (by simp only [get, hnone, hnothing])

end Codec

/-! ## A stored experiment -/

/-- The result of an analysis without runs. -/
def noResult : CachedResult where
  analysisVersion := 1
  classification := "insufficient"
  validity := "insufficient"
  absoluteDelta := none
  relativeDelta := none
  computedMs := 1000

/-- An experiment without runs, with some notes. -/
def draft (notes : String) (lastResult : Option CachedResult) : ExperimentRecord where
  schema := 1
  id := "exp-1"
  name := "Undervolt"
  question := ""
  primaryMetric := "system_power"
  primaryLabel := "System power"
  primaryUnit := "W"
  direction := "lower"
  pairing := "unpaired"
  baselineLabel := "before"
  treatmentLabel := "after"
  settleS := 0
  measureS := 0
  repetitions := 3
  randomized := false
  orderSeed := none
  collectors := none
  preset := none
  notes := notes
  status := "draft"
  createdMs := 1000
  updatedMs := 1000
  runs := []
  lastResult := lastResult

/-- The text of such an experiment, of which the notes need no escapes. -/
def draftText (notes : String) (analyzed : Bool) : String :=
  "\x7b\n  \"schema\": 1,\n  \"id\": \"exp-1\",\n  \"name\": \"Undervolt\",\n" ++
    "  \"question\": \"\",\n  \"primaryMetric\": \"system_power\",\n" ++
    "  \"primaryLabel\": \"System power\",\n  \"primaryUnit\": \"W\",\n" ++
    "  \"direction\": \"lower\",\n  \"pairing\": \"unpaired\",\n" ++
    "  \"baselineLabel\": \"before\",\n  \"treatmentLabel\": \"after\",\n" ++
    "  \"settleS\": 0.0,\n  \"measureS\": 0.0,\n  \"repetitions\": 3,\n" ++
    "  \"randomized\": false,\n  \"notes\": \"" ++ notes ++ "\",\n" ++
    "  \"status\": \"draft\",\n  \"createdMs\": 1000,\n  \"updatedMs\": 1000,\n" ++
    "  \"runs\": []" ++
    (if analyzed then ",\n  \"lastResult\": \x7b\n    \"analysisVersion\": 1,\n" ++
      "    \"classification\": \"insufficient\",\n    \"validity\": \"insufficient\",\n" ++
      "    \"computedMs\": 1000\n  \x7d" else "") ++ "\n\x7d"

/-- Such experiments with their texts. -/
def drafts : List (ExperimentRecord × String) :=
  ["first", "second"].flatMap fun notes =>
    [(draft notes none, draftText notes false), (draft notes (some noResult), draftText notes true)]

/-- What is written of these experiments and read of their texts. -/
def draftCodec : Codec where
  print r :=
    match drafts.find? fun d => d.1.userFields = r.userFields ∧
        d.1.lastResult.isSome = r.lastResult.isSome with
    | some d => .ok d.2
    | none => .error "not a draft"
  parse text :=
    match drafts.find? fun d => d.2 = text with
    | some d => .ok d.1
    | none => .error "expected value at line 1 column 1"

/-- The process stops between the removal and the renaming, and nothing is stored any more. -/
theorem stopped_save_loses_record :
    ¬∀ (codec : Codec) (times : Times) (faults : Faults) (record : ExperimentRecord)
      (disk : Disk), Atomic codec times faults record disk := by
  intro h
  have hexposed : Exposed draftCodec ⟨1000, 0, 1000, 1000⟩ ⟨.done, .done, 0, .done, .stopped⟩
      (draft "second" none) :=
    ⟨rfl, rfl, rfl, ⟨draftText "second" false, rfl⟩, rfl, rfl, by simp⟩
  exact hexposed.not_atomic rfl
    (h _ _ _ _ fun _ => ⟨some (draftText "first" false), none⟩)

end PowerForensics.ExperimentStore
