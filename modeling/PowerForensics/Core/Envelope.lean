import PowerForensics.Binary64.Quotient
import PowerForensics.Core.JsonText
import PowerForensics.Core.SessionFaults

/-! # Envelopes of readings

A reading is written as an object with its value, its provenance and its freshness, or
with the kind and the reason of its absence. The loader turns the object back into a
reading; whatever the object is, a present value needs a provenance of its own.
-/

namespace PowerForensics

open Json

/-! ## The writer -/

def codeText (code : UInt8) : List Char := Nat.toDigits 10 code.toNat

/-- The members of an envelope. -/
def jsonNumMembers (v : Option Binary64) (prov : Provenance) (kind : UnavailKind)
    (reason : String) : List (String × List Char) :=
  match v with
  | some x => [("v", x.display), ("p", quoted prov.asStr), ("q", codeText 0)]
  | none =>
      [("v", "null".toList), ("p", quoted "unavailable"), ("k", codeText kind.code),
        ("q", codeText (qualityForKind kind).code), ("reason", quoted reason)]

def jsonNum (v : Option Binary64) (prov : Provenance) (kind : UnavailKind) (reason : String) :
    String := String.ofList (objectText (jsonNumMembers v prov kind reason))

example : jsonNum none .measured .transientError "off" =
    "\x7b\"v\":null,\"p\":\"unavailable\",\"k\":1,\"q\":3,\"reason\":\"off\"\x7d" := by
  decide +kernel

/-- The envelope of a reading. -/
def Telemetry.envelope (r : Telemetry Binary64) : String :=
  match r.value with
  | .unavailable reason =>
      jsonNum none .unavailable (r.unavailKind.getD .notSampled) reason
  | value => jsonNum value.value value.provenance .notSampled ""

namespace Session

/-! ## Reading an envelope back -/

/-- The value that the envelope of a present value is read as. -/
def presentValue (x : Binary64) (prov : Provenance) : JVal :=
  .obj [("v", .num x), ("p", .str prov.asStr), ("q", .num (.ofNat 0))]

/-- The value that the envelope of an absence is read as. -/
def absentValue (kind : UnavailKind) (reason : String) : JVal :=
  .obj [("v", .null), ("p", .str "unavailable"), ("k", .num (.ofNat kind.code.toNat)),
    ("q", .num (.ofNat (qualityForKind kind).code.toNat)), ("reason", .str reason)]

theorem parse_jsonNum_some {x : Binary64} (hx : x.isFinite) (prov : Provenance)
    (kind : UnavailKind) (reason : String) :
    parse (jsonNum (some x) prov kind reason) = .ok (presentValue x prov) := by
  apply parse_of_takes
  rw [jsonNum, String.toList_ofList]
  refine takes_objectText [("v", x.display, .num x), ("p", quoted prov.asStr, .str prov.asStr),
    ("q", codeText 0, .num (.ofNat 0))] ?_
  simp only [List.forall_mem_cons, List.not_mem_nil, false_imp_iff, implies_true, and_true]
  exact ⟨takes_number (Binary64.denotes_display hx), takes_quoted _, takes_digits 0⟩

theorem parse_jsonNum_none (prov : Provenance) (kind : UnavailKind) (reason : String) :
    parse (jsonNum none prov kind reason) = .ok (absentValue kind reason) := by
  apply parse_of_takes
  rw [jsonNum, String.toList_ofList]
  refine takes_objectText [("v", "null".toList, .null),
    ("p", quoted "unavailable", .str "unavailable"),
    ("k", codeText kind.code, .num (.ofNat kind.code.toNat)),
    ("q", codeText (qualityForKind kind).code, .num (.ofNat (qualityForKind kind).code.toNat)),
    ("reason", quoted reason, .str reason)] ?_
  simp only [List.forall_mem_cons, List.not_mem_nil, false_imp_iff, implies_true, and_true]
  exact ⟨takes_null, takes_quoted _, takes_digits _, takes_digits _, takes_quoted _⟩

theorem asU8_ofNat (n : UInt8) : asU8 (.ofNat n.toNat) = n := by
  have hlt : n.toNat < 2 ^ 8 := n.toNat_lt
  rw [asU8, Binary64.toUnsigned_ofNat (hlt.trans (by decide)), min_eq_left (by omega),
    UInt8.ofNat_toNat]

/-- A reason is kept up to the byte where reasons are cut. -/
theorem internReason_of_cut {s : String} {cs : List Char}
    (hcut : truncate reasonLimit s.toList = some cs) : internReason s = .ok (String.ofList cs) := by
  unfold internReason
  split
  next hknown =>
    rw [knownReasons_kept s hknown, Option.some.injEq] at hcut
    rw [← hcut, String.ofList_toList]
  next => rw [hcut]

theorem evInner_present (x : Binary64) (prov : Provenance) (source : String)
    (stamp : ClockStamp) {value : Reading Binary64}
    (hvalue : present? (some prov.asStr) x = some value) :
    evInner (some (presentValue x prov)) source stamp =
      .ok ⟨value, source, stamp, .fresh, none⟩ := by
  have hq := asU8_ofNat SampleQuality.fresh.code
  simp only [evInner, presentValue, Option.bind_some, JVal.num?, JVal.numAt, JVal.strAt,
    get_obj_cons, get_obj_nil, JVal.asStr, if_true, reduceIte, String.reduceEq, hvalue,
    Option.map_some, Option.getD_some]
  rw [show asU8 (.ofNat 0) = 0 from hq]
  rfl

theorem evInner_absent {kind : UnavailKind} {reason : String} {cs : List Char}
    (hcut : truncate reasonLimit reason.toList = some cs) (source : String)
    (stamp : ClockStamp) :
    evInner (some (absentValue kind reason)) source stamp =
      .ok ⟨.unavailable (String.ofList cs), source, stamp, qualityForKind kind, some kind⟩ := by
  have hk := asU8_ofNat kind.code
  have hq := asU8_ofNat (qualityForKind kind).code
  have hreason : internReason reason = .ok (String.ofList cs) := internReason_of_cut hcut
  simp only [evInner, absentValue, Option.bind_some, JVal.num?, JVal.numAt, JVal.strAt,
    get_obj_cons, get_obj_nil, JVal.asStr, reduceIte, String.reduceEq, Option.map_some,
    Option.getD_some, hk, hq, storedReason, hreason, UnavailKind.fromU8_code,
    SampleQuality.fromU8_code]
  rfl

/-! ## What a written reading comes back as -/

/-- An absent reading has a kind, a present one has none. -/
def WellFormed (r : Telemetry Binary64) : Prop := r.unavailKind.isSome = r.val.isNone

/-- The value, with a reason cut where reasons are cut; none if a character is there. -/
def keptReading : Reading Binary64 → Option (Reading Binary64)
  | .unavailable reason =>
      (truncate reasonLimit reason.toList).map fun cs => .unavailable (String.ofList cs)
  | value => some value

/-- The quality that the writer puts into an envelope. -/
def writtenQuality (r : Telemetry Binary64) : SampleQuality :=
  match r.unavailKind with
  | none => .fresh
  | some kind => qualityForKind kind

theorem keptReading_provenance {value kept : Reading Binary64}
    (hkept : keptReading value = some kept) :
    kept.provenance = value.provenance ∧ kept.value = value.value := by
  cases value with
  | unavailable reason =>
      obtain ⟨cs, -, rfl⟩ := Option.map_eq_some_iff.mp hkept
      exact ⟨rfl, rfl⟩
  | _ =>
      obtain rfl := Option.some.inj hkept
      exact ⟨rfl, rfl⟩

theorem envelope_read (r : Telemetry Binary64) (hr : WellFormed r)
    (hfinite : ∀ x ∈ r.val, x.isFinite = true) {kept : Reading Binary64}
    (hkept : keptReading r.value = some kept) (source : String) (stamp : ClockStamp) :
    ∃ env, parse r.envelope = .ok env ∧
      evInner (some env) source stamp =
        .ok ⟨kept, source, stamp, writtenQuality r, r.unavailKind⟩ := by
  rcases r with ⟨value, src, st, quality, kind⟩
  have hpresent : ∀ x, value.value = some x → ∀ prov : Provenance,
      present? (some prov.asStr) x = some value → keptReading value = some value →
      Telemetry.envelope ⟨value, src, st, quality, kind⟩ = jsonNum (some x) prov .notSampled "" →
      ∃ env, parse (Telemetry.envelope ⟨value, src, st, quality, kind⟩) = .ok env ∧
        evInner (some env) source stamp =
          .ok ⟨kept, source, stamp, writtenQuality ⟨value, src, st, quality, kind⟩, kind⟩ := by
    intro x hx prov hprov hsame henvelope
    obtain rfl : value = kept := by rw [hsame] at hkept; exact Option.some.inj hkept
    have hnone : kind = none := by
      simp only [WellFormed, Telemetry.val, hx, Option.isNone_some, Option.isSome_eq_false_iff,
        Option.isNone_iff_eq_none] at hr
      exact hr
    subst hnone
    refine ⟨presentValue x prov, ?_, evInner_present x prov source stamp hprov⟩
    rw [henvelope]
    exact parse_jsonNum_some (hfinite x hx) prov _ _
  cases value with
  | measured x => exact hpresent x rfl .measured rfl rfl rfl
  | derived x => exact hpresent x rfl .derived rfl rfl rfl
  | estimated x => exact hpresent x rfl .estimated rfl rfl rfl
  | unavailable reason =>
      obtain ⟨cs, hcut, rfl⟩ := Option.map_eq_some_iff.mp hkept
      cases kind with
      | none => simp [WellFormed, Telemetry.val, Reading.value] at hr
      | some kind =>
          exact ⟨absentValue kind reason, parse_jsonNum_none _ kind reason,
            evInner_absent hcut source stamp⟩

theorem present?_some {p : Option String} {x : Binary64} {value : Reading Binary64}
    (hvalue : present? p x = some value) :
    value.value = some x ∧ p = some value.provenance.asStr := by
  unfold present? at hvalue
  split at hvalue
  next hword =>
    obtain rfl := Option.some.inj hvalue
    exact ⟨rfl, hword⟩
  next =>
    split at hvalue
    next hword =>
      obtain rfl := Option.some.inj hvalue
      exact ⟨rfl, hword⟩
    next =>
      split at hvalue
      next hword =>
        obtain rfl := Option.some.inj hvalue
        exact ⟨rfl, hword⟩
      next => cases hvalue

/-- A present value comes from a bare number or from a number with its provenance. -/
theorem evInner_val {inner : Option JVal} {source : String} {stamp : ClockStamp}
    {read : Telemetry Binary64} (hread : evInner inner source stamp = .ok read) {x : Binary64}
    (hx : read.val = some x) :
    (inner = some (.num x) ∧ read.value = .measured x ∧ read.quality = .unknown) ∨
      (inner.bind (·.numAt "v") = some x ∧
        inner.bind (·.strAt "p") = some read.value.provenance.asStr) := by
  unfold evInner at hread
  cases hnum : inner.bind JVal.num? with
  | some n =>
      -- a bare number, as old recordings have it
      simp only [hnum, Except.ok.injEq] at hread
      subst hread
      obtain rfl : n = x := Option.some.inj hx
      left
      obtain ⟨v, rfl, hv⟩ := Option.bind_eq_some_iff.mp hnum
      cases v <;> simp_all [JVal.num?, bareNumber]
  | none =>
      simp only [hnum] at hread
      cases hv : inner.bind (·.numAt "v") with
      | none =>
          simp only [hv] at hread
          cases hreason : internReason (storedReason inner) with
          | error e => simp [hreason, bind, Except.bind] at hread
          | ok reason =>
              simp only [hreason, bind, Except.bind, pure, Except.pure, Except.ok.injEq] at hread
              subst hread
              cases hx
      | some y =>
          simp only [hv] at hread
          cases hp : present? (inner.bind (·.strAt "p")) y with
          | none =>
              -- a value of an unknown provenance is dropped
              simp only [hp] at hread
              cases hreason : internReason "present value with unknown provenance kind" with
              | error e => simp [hreason, bind, Except.bind] at hread
              | ok reason =>
                  simp only [hreason, bind, Except.bind, pure, Except.pure, Except.ok.injEq]
                    at hread
                  subst hread
                  cases hx
          | some value =>
              simp only [hp, Except.ok.injEq] at hread
              subst hread
              right
              obtain ⟨hvalue, hword⟩ := present?_some hp
              rw [← hword, Option.some.inj (hvalue.symm.trans hx)]
              exact ⟨rfl, rfl⟩

/-- However a reading is written, its envelope is read back with the same value, kind and
provenance, the reason it keeps, and the quality that the writer gives it; and whatever an
envelope is, a value that is read from it is a bare number or has its provenance there. -/
theorem evInner_envelope :
    (∀ (r : Telemetry Binary64) (kept : Reading Binary64) (source : String) (stamp : ClockStamp),
      WellFormed r → (∀ x ∈ r.val, x.isFinite = true) → keptReading r.value = some kept →
        ∃ env read, parse r.envelope = .ok env ∧ evInner (some env) source stamp = .ok read ∧
          read.value.provenance = r.value.provenance ∧ read.val = r.val ∧ read.value = kept ∧
          read.unavailKind = r.unavailKind ∧ read.quality = writtenQuality r) ∧
    (∀ (inner : Option JVal) (source : String) (stamp : ClockStamp) (read : Telemetry Binary64)
      (x : Binary64), evInner inner source stamp = .ok read → read.val = some x →
        (inner = some (.num x) ∧ read.value = .measured x ∧ read.quality = .unknown) ∨
          (inner.bind (·.numAt "v") = some x ∧
            inner.bind (·.strAt "p") = some read.value.provenance.asStr)) := by
  refine ⟨fun r kept source stamp hr hfinite hkept => ?_,
    fun inner source stamp read x hread hx => evInner_val hread hx⟩
  obtain ⟨env, hparse, hread⟩ := envelope_read r hr hfinite hkept source stamp
  obtain ⟨hprov, hval⟩ := keptReading_provenance hkept
  exact ⟨env, _, hparse, hread, hprov, hval, rfl, rfl, rfl⟩

/-- A measured value and an absence with a reason that needs escaping. -/
theorem evInner_envelope_sample :
    (∃ env read, parse (Telemetry.envelope (.measured 6.4 "battery" default)) = .ok env ∧
      evInner (some env) "cpu" default = .ok read ∧ read.val = some 6.4 ∧
      read.quality = .fresh) ∧
    (∃ env read, parse (Telemetry.envelope (.unavailable .transientError "no \"x\"" "gpu" default)) =
        .ok env ∧ evInner (some env) "cpu" default = .ok read ∧
      read.value = .unavailable "no \"x\"" ∧ read.unavailKind = some .transientError) := by
  constructor
  · obtain ⟨env, read, hparse, hread, -, hval, -, -, hquality⟩ :=
      evInner_envelope.1 (.measured 6.4 "battery" default) (.measured 6.4) "cpu" default rfl
        (by intro x hx; obtain rfl := Option.some.inj hx; decide +kernel) rfl
    exact ⟨env, read, hparse, hread, hval, hquality⟩
  · obtain ⟨env, read, hparse, hread, -, -, hvalue, hkind, -⟩ :=
      evInner_envelope.1 (.unavailable .transientError "no \"x\"" "gpu" default)
        (.unavailable "no \"x\"") "cpu" default rfl (by simp [Telemetry.val, Telemetry.unavailable,
          Reading.value]) (by decide +kernel)
    exact ⟨env, read, hparse, hread, hvalue, hkind⟩

/-- The writer gives every present value the quality of a fresh one: a stale reading does not
come back as it was. -/
theorem envelope_requalified :
    ¬ ∀ (r : Telemetry Binary64) (source : String) (stamp : ClockStamp),
      WellFormed r → r.quality ≠ .unknown →
        ∃ env read, parse r.envelope = .ok env ∧ evInner (some env) source stamp = .ok read ∧
          read.value = r.value ∧ read.unavailKind = r.unavailKind ∧ read.quality = r.quality := by
  intro hall
  obtain ⟨env, read, hparse, hread, -, -, hquality⟩ :=
    hall ⟨.measured 1.0, "battery", default, .stale, none⟩ "battery" default rfl nofun
  have henv : parse (Telemetry.envelope ⟨.measured 1.0, "battery", default, .stale, none⟩) =
      .ok (presentValue 1.0 .measured) :=
    parse_jsonNum_some (by decide +kernel) .measured _ _
  obtain rfl := Except.ok.inj (henv.symm.trans hparse)
  rw [evInner_present 1.0 .measured "battery" default rfl] at hread
  obtain rfl := Except.ok.inj hread
  cases hquality

end Session

end PowerForensics
