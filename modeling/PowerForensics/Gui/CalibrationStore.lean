import PowerForensics.Core.ArchiveManifest
import PowerForensics.Core.CalibrationQuality
import PowerForensics.Gui.ExperimentStore

/-! # Stored calibrations

Calibrations are revisions in one file, of which one may be active. Every call loads the file,
changes what it has loaded, and saves it through a temporary file. A file that cannot be read is
taken as one without revisions.
-/

namespace PowerForensics.CalibrationStore

open Calibration ExperimentStore

/-! ## Records -/

deriving instance DecidableEq for ValidationStats, Residual

structure ReferenceDto where
  input : Binary64
  reference : Binary64
  kind : String
  sourceLabel : String
  note : String
  deriving DecidableEq

structure DatasetRefDto where
  sessionId : String
  fromMs : Option UInt64
  toMs : Option UInt64
  role : String
  note : String
  deriving DecidableEq

structure ExclusionDto where
  sessionId : String
  reason : String
  deriving DecidableEq

structure ModelDto where
  slopeWPerPct : Binary64
  interceptW : Binary64
  minBrightness : Binary64
  r2Fit : Binary64
  deriving DecidableEq

structure ApplicabilityDto where
  machine : String
  panel : String
  inputMin : Binary64
  inputMax : Binary64
  powerSource : Option String
  deriving DecidableEq

/-- A revision as it is stored. -/
structure CalibrationRecordFile where
  id : String
  revision : UInt32
  createdAtMs : UInt64
  target : String
  modelKind : String
  evidenceClass : String
  referenceKind : String
  independentReference : Bool
  model : ModelDto
  applicability : ApplicabilityDto
  references : List ReferenceDto
  dataset : List DatasetRefDto
  exclusions : List ExclusionDto
  validation : Option ValidationStats
  residuals : List Residual
  quality : String
  qualityReasons : List String
  notes : String
  deriving DecidableEq

structure ActiveEventDto where
  id : String
  previousId : Option String
  atMs : UInt64
  action : String
  deriving DecidableEq

structure CalibrationSetFile where
  schemaVersion : UInt32
  target : String
  activeId : Option String
  revisions : List CalibrationRecordFile
  activeEvents : List ActiveEventDto
  deriving DecidableEq

def calibrationSchemaVersion : UInt32 := 1

def targetDisplayPower : String := "display_power"

/-- How a set is written as text and read back. -/
structure Codec where
  print : CalibrationSetFile → Except String String
  parse : String → Option CalibrationSetFile

def emptySet : CalibrationSetFile := ⟨calibrationSchemaVersion, targetDisplayPower, none, [], []⟩

/-- What is loaded of a file, if it can be read. -/
def loadSet (codec : Codec) (text : Option String) : CalibrationSetFile :=
  match text with
  | none => emptySet
  | some text => (codec.parse text).getD emptySet

/-! ## Calls -/

structure CreateRequest where
  target : String
  referenceKind : String
  references : List ReferenceDto
  dataset : List DatasetRefDto
  exclusions : List ExclusionDto
  notes : String
  machine : Option String
  panel : Option String
  powerSource : Option String
  activate : Bool

/-- The machine and the panel that are detected, and what the clock shows during a call. -/
structure Surroundings where
  machine : String
  panel : String
  createdMs : UInt64
  activatedMs : UInt64

/-- A name that is given and not empty, or the one that is detected. -/
def identity (given : Option String) (detected : String) : String :=
  match given with
  | some name => if name = "" then detected else name
  | none => detected

/-- The spread of the references. -/
def referenceSpan (points : List Point) : Binary64 :=
  ((references points).foldl max (.infinity true) -
    (references points).foldl min (.infinity false)).abs

/-- The new revision but for its number. -/
def newRecord (env : Surroundings) (request : CreateRequest) (kind : ReferenceKind)
    (fit : FitOutcome) (revision : UInt32) : CalibrationRecordFile :=
  let machine := identity request.machine env.machine
  let panel := identity request.panel env.panel
  let (quality, reasons) := classify
    { n := fit.n
      independentValidation := fit.independentValidation
      validation := fit.validation
      referenceSpan := some (referenceSpan (request.references.map fun r => (r.input, r.reference)))
      inputMin := fit.inputMin
      inputMax := fit.inputMax
      targetDomain := (0.0, 100.0)
      independentReference := kind.isIndependent
      hardwareMatches := machine = env.machine && panel = env.panel }
  { id := s!"{request.target}#{revision}"
    revision
    createdAtMs := env.createdMs
    target := request.target
    modelKind := "display_linear"
    evidenceClass := "estimated"
    referenceKind := request.referenceKind
    independentReference := kind.isIndependent
    model := ⟨fit.slope, fit.intercept, fit.inputMin, fit.r2Fit⟩
    applicability := ⟨machine, panel, fit.inputMin, fit.inputMax, request.powerSource⟩
    references := request.references
    dataset := request.dataset
    exclusions := request.exclusions
    validation := fit.validation
    residuals := fit.residuals
    quality := quality.asStr
    qualityReasons := reasons
    notes := request.notes }

/-- A request is checked, and fitted, before the file is loaded. -/
def checkRequest (request : CreateRequest) : Except BridgeError (ReferenceKind × FitOutcome) :=
  if request.target ≠ targetDisplayPower then
    .error ⟨"bad-request", s!"unsupported calibration target '{request.target}': " ++
      "only display_power is calibratable", none⟩
  else
    match ReferenceKind.parse request.referenceKind with
    | none => .error ⟨"bad-request", s!"unknown reference kind '{request.referenceKind}'", none⟩
    | some kind =>
        if request.references.length < 2 then
          .error ⟨"insufficient-evidence", "calibration needs at least two reference points", none⟩
        else
          match fitDisplayCalibration (request.references.map fun r => (r.input, r.reference)) with
          | none =>
              .error ⟨"insufficient-evidence",
                "reference points do not span a fit: need distinct input levels", none⟩
          | some fit => .ok (kind, fit)

def lastRevision (set : CalibrationSetFile) : UInt32 :=
  (set.revisions.map (·.revision)).foldl max 0

/-- One more than the largest number, within its type. -/
def nextRevision (set : CalibrationSetFile) : UInt32 := lastRevision set + 1

def activated (id : String) (atMs : UInt64) (set : CalibrationSetFile) : CalibrationSetFile :=
  { set with
    activeEvents := set.activeEvents ++ [⟨id, set.activeId, atMs, "activated"⟩]
    activeId := some id }

/-- The set with a revision more. -/
def withRevision (env : Surroundings) (request : CreateRequest) (record : CalibrationRecordFile)
    (set : CalibrationSetFile) : CalibrationSetFile :=
  let set :=
    { set with
      target := request.target
      schemaVersion := calibrationSchemaVersion
      revisions := set.revisions ++ [record] }
  if request.activate then activated record.id env.activatedMs set else set

def validateTarget (target : String) : Except BridgeError Unit :=
  if target = targetDisplayPower then .ok ()
  else .error ⟨"bad-request", s!"unsupported calibration target '{target}'", none⟩

def targetFromId (id : String) : Except BridgeError String :=
  match Archive.splitOnce '#' id with
  | none => .error ⟨"bad-request", "invalid calibration id", none⟩
  | some (target, revision) => do
      validateTarget target
      if revision = "" ∨ !revision.toList.all Char.isDigit then
        .error ⟨"bad-request", "invalid calibration revision", none⟩
      else .ok target

/-- A call that changes what is stored, and what the clock shows during it. -/
inductive Op where
  | create (env : Surroundings) (request : CreateRequest)
  | setActive (atMs : UInt64) (id : String)

/-- The set that a call saves, and the revision that is new in it. -/
def Op.apply (set : CalibrationSetFile) :
    Op → Except BridgeError (CalibrationSetFile × Option CalibrationRecordFile)
  | .create env request =>
      match checkRequest request with
      | .error e => .error e
      | .ok (kind, fit) =>
          let record := newRecord env request kind fit (nextRevision set)
          .ok (withRevision env request record set, some record)
  | .setActive atMs id =>
      match targetFromId id with
      | .error e => .error e
      | .ok _ =>
          if set.revisions.any (·.id = id) then .ok (activated id atMs set, none)
          else .error ⟨"not-found", s!"unknown calibration: {id}", none⟩

/-! ## Numbers -/

def ReferenceDto.numbers (r : ReferenceDto) : List Binary64 := [r.input, r.reference]

def validationNumbers (v : ValidationStats) : List Binary64 :=
  [v.mae, v.rmse, v.medianAbsError, v.maxAbsError] ++ v.r2.toList

def residualNumbers (r : Residual) : List Binary64 :=
  [r.input, r.predicted, r.reference, r.absError] ++ r.relativeError.toList

/-- The floating-point numbers of a revision. -/
def CalibrationRecordFile.numbers (r : CalibrationRecordFile) : List Binary64 :=
  [r.model.slopeWPerPct, r.model.interceptW, r.model.minBrightness, r.model.r2Fit,
    r.applicability.inputMin, r.applicability.inputMax] ++
    r.references.flatMap ReferenceDto.numbers ++ r.validation.toList.flatMap validationNumbers ++
    r.residuals.flatMap residualNumbers

/-- The floating-point numbers of a request and of what is fitted to its references. -/
def requestNumbers (request : CreateRequest) (fit : FitOutcome) : List Binary64 :=
  [fit.slope, fit.intercept, fit.r2Fit, fit.inputMin, fit.inputMax] ++
    request.references.flatMap ReferenceDto.numbers ++
    fit.validation.toList.flatMap validationNumbers ++ fit.residuals.flatMap residualNumbers

/-- A set is read back from its text if each of its numbers is one that texts keep. -/
def Codec.Faithful (codec : Codec) (kept : Binary64 → Prop) : Prop :=
  ∀ set text, codec.print set = .ok text →
    (∀ r ∈ set.revisions, ∀ x ∈ r.numbers, kept x) → codec.parse text = some set

/-! ## What a call does to a set -/

/-- The numbers of the revisions differ, and the active id is the one of a revision. -/
structure Wellformed (set : CalibrationSetFile) : Prop where
  distinct : (set.revisions.map (·.revision)).Nodup
  active : ∀ id ∈ set.activeId, ∃ r ∈ set.revisions, r.id = id

/-- The largest number is not the last one of its type. -/
def Roomy (set : CalibrationSetFile) : Prop :=
  ∀ r ∈ set.revisions, r.revision.toNat + 1 < 2 ^ 32

section Calls

variable {set : CalibrationSetFile} {env : Surroundings} {request : CreateRequest}

theorem wellformed_emptySet : Wellformed emptySet where
  distinct := List.nodup_nil
  active _ hid := by cases hid

theorem toNat_max (m n : UInt32) : (max m n).toNat = max m.toNat n.toNat := by
  change (if m ≤ n then n else m).toNat = _
  split
  · next hle =>
    rw [UInt32.le_iff_toNat_le] at hle
    exact (max_eq_right hle).symm
  · next hlt =>
    rw [UInt32.le_iff_toNat_le, not_le] at hlt
    exact (max_eq_left hlt.le).symm

theorem le_foldl_max (numbers : List UInt32) (start : UInt32) :
    start.toNat ≤ (numbers.foldl max start).toNat ∧
      ∀ n ∈ numbers, n.toNat ≤ (numbers.foldl max start).toNat := by
  induction numbers generalizing start with
  | nil => exact ⟨le_refl _, fun n hn => by cases hn⟩
  | cons first numbers ih =>
      obtain ⟨hmax, hnumbers⟩ := ih (max start first)
      rw [toNat_max] at hmax
      refine ⟨(le_max_left _ _).trans hmax, fun n hn => ?_⟩
      obtain rfl | hn := List.mem_cons.mp hn
      · exact (le_max_right _ _).trans hmax
      · exact hnumbers n hn

theorem foldl_max_lt {bound : Nat} {numbers : List UInt32} {start : UInt32}
    (hstart : start.toNat < bound) (hnumbers : ∀ n ∈ numbers, n.toNat < bound) :
    (numbers.foldl max start).toNat < bound := by
  induction numbers generalizing start with
  | nil => exact hstart
  | cons first numbers ih =>
      obtain ⟨hfirst, hnumbers⟩ := List.forall_mem_cons.mp hnumbers
      exact ih (by rw [toNat_max]; exact max_lt hstart hfirst) hnumbers

/-- The next number is larger than every number there is. -/
theorem lt_nextRevision (hroomy : Roomy set) {r : CalibrationRecordFile}
    (hr : r ∈ set.revisions) : r.revision < nextRevision set := by
  have hle : r.revision.toNat ≤ (lastRevision set).toNat :=
    (le_foldl_max (set.revisions.map (·.revision)) 0).2 _ (List.mem_map_of_mem hr)
  have hlast : (lastRevision set).toNat < 2 ^ 32 - 1 := by
    refine foldl_max_lt (by decide) fun n hn => ?_
    obtain ⟨r, hr, rfl⟩ := List.mem_map.mp hn
    exact Nat.lt_sub_of_add_lt (hroomy r hr)
  have hone : (1 : UInt32).toNat = 1 := rfl
  rw [UInt32.lt_iff_toNat_lt, nextRevision, UInt32.toNat_add, hone,
    Nat.mod_eq_of_lt (Nat.add_lt_of_lt_sub hlast)]
  exact Nat.lt_succ_of_le hle

@[simp] theorem revisions_withRevision (record : CalibrationRecordFile) :
    (withRevision env request record set).revisions = set.revisions ++ [record] := by
  unfold withRevision
  split <;> rfl

theorem Wellformed.activated (h : Wellformed set) {id : String} (atMs : UInt64)
    (hid : ∃ r ∈ set.revisions, r.id = id) : Wellformed (activated id atMs set) where
  distinct := h.distinct
  active id' hid' := by
    obtain rfl := Option.some.inj hid'
    exact hid

/-- A revision with a number of its own may be added. -/
theorem Wellformed.withRevision (h : Wellformed set) {record : CalibrationRecordFile}
    (hnew : ∀ r ∈ set.revisions, r.revision ≠ record.revision) :
    Wellformed (withRevision env request record set) := by
  have hadded : Wellformed
      { set with
        target := request.target
        schemaVersion := calibrationSchemaVersion
        revisions := set.revisions ++ [record] } := by
    refine ⟨?_, fun id hid => ?_⟩
    · rw [List.map_append, List.nodup_append]
      refine ⟨h.distinct, List.nodup_singleton _, fun n hn n' hn' => ?_⟩
      obtain ⟨r, hr, rfl⟩ := List.mem_map.mp hn
      obtain rfl := List.mem_singleton.mp hn'
      exact hnew r hr
    · obtain ⟨r, hr, heq⟩ := h.active id hid
      exact ⟨r, List.mem_append_left _ hr, heq⟩
  unfold CalibrationStore.withRevision
  split
  · exact hadded.activated _ ⟨record, by simp, rfl⟩
  · exact hadded

@[simp] theorem notes_newRecord (kind : ReferenceKind) (fit : FitOutcome) (revision : UInt32) :
    (newRecord env request kind fit revision).notes = request.notes := rfl

theorem numbers_newRecord (kind : ReferenceKind) (fit : FitOutcome) (revision : UInt32) :
    ∀ x ∈ (newRecord env request kind fit revision).numbers, x ∈ requestNumbers request fit := by
  intro x hx
  simp only [CalibrationRecordFile.numbers, newRecord, requestNumbers, List.mem_append,
    List.mem_cons] at hx ⊢
  tauto

end Calls

end PowerForensics.CalibrationStore
