import PowerForensics.Binary64.Finite
import PowerForensics.Core.EnvelopeDoc
import PowerForensics.Core.SessionFrame
import PowerForensics.Core.SessionWriter

/-! # A header and one record

What is loaded of a session with a header and one record is what the loader of the record's
collector makes of it. An envelope comes back as the reading it was written of, as long as
its reason is short, and lists come back element by element.
-/

namespace PowerForensics.Session

open Json

/-! ## Numbers -/

theorem toNat_asU32_ofNat {n : Nat} (hn : n < 2 ^ 32) : (asU32 (.ofNat n)).toNat = n := by
  have hexact : (Binary64.ofNat n).toUnsigned 32 = min n (2 ^ 32 - 1) :=
    Binary64.toUnsigned_ofNat (hn.trans (by decide)) 32
  rw [asU32, hexact, UInt32.toNat_ofNat']
  omega

/-- Every integer of 32 bits comes back. -/
theorem asU32_ofU32 (n : UInt32) : asU32 (ofU32 n) = n :=
  UInt32.toNat.inj (toNat_asU32_ofNat n.toNat_lt)

theorem map_asU32_ofU32 (o : Option UInt32) : (o.map ofU32).map asU32 = o := by
  cases o with
  | none => rfl
  | some n => rw [Option.map_some, Option.map_some, asU32_ofU32]

/-- Integers up to 53 bits come back from a file. -/
theorem readBack_of_lt {n : UInt64} (hn : n.toNat < 2 ^ 53) : readBack n = n := by
  have hexact : (Binary64.ofNat n.toNat).toUnsigned 64 = min n.toNat (2 ^ 64 - 1) :=
    Binary64.toUnsigned_ofNat hn 64
  apply UInt64.toNat.inj
  rw [readBack, asU64, hexact, UInt64.toNat_ofNat']
  omega

/-! ## Readings -/

/-- A reading as the loader has it. -/
def loadedReading (r : Reading Binary64) (kind : UnavailKind) (source : String)
    (stamp : ClockStamp) : Telemetry Binary64 :=
  match r with
  | .unavailable reason => .unavailable kind reason source stamp
  | value => ⟨value, source, stamp, .fresh, none⟩

@[simp] theorem val_loadedReading (r : Reading Binary64) (kind : UnavailKind) (source : String)
    (stamp : ClockStamp) : (loadedReading r kind source stamp).val = r.value := by
  cases r <;> rfl

/-- A reason that is short enough is kept whole. -/
def ReasonKept (r : Reading Binary64) : Prop :=
  ∀ reason, r = .unavailable reason → truncate reasonLimit reason.toList = some reason.toList

theorem ev_readingNum {obj : JVal} {key : String} {r : Reading Binary64} {kind : UnavailKind}
    (hget : obj.get key = some (Doc.readingNum .shown r kind).value) (hkept : ReasonKept r)
    (source : String) (stamp : ClockStamp) :
    ev obj key source stamp = .ok (loadedReading r kind source stamp) := by
  rw [ev, hget]
  cases r with
  | measured x => exact evInner_present x .measured source stamp rfl
  | derived x => exact evInner_present x .derived source stamp rfl
  | estimated x => exact evInner_present x .estimated source stamp rfl
  | unavailable reason =>
      have habsent : evInner (some (absentValue kind reason)) source stamp = .ok
          ⟨.unavailable (String.ofList reason.toList), source, stamp, qualityForKind kind,
            some kind⟩ := evInner_absent (hkept reason rfl) source stamp
      rw [String.ofList_toList] at habsent
      exact habsent

/-- The reading that is written of a value that may be absent. -/
def optReading (prov : Provenance) (reason : String) (v : Option Binary64) : Reading Binary64 :=
  match v, prov with
  | none, _ => .unavailable reason
  | some x, .derived => .derived x
  | some x, .estimated => .estimated x
  | some x, _ => .measured x

@[simp] theorem value_optReading (prov : Provenance) (reason : String) (v : Option Binary64) :
    (optReading prov reason v).value = v := by
  cases v <;> cases prov <;> rfl

theorem jsonNum_eq (v : Option Binary64) {prov : Provenance} (hprov : prov ≠ .unavailable)
    (kind : UnavailKind) (reason : String) :
    Doc.jsonNum v prov kind reason = .readingNum .shown (optReading prov reason v) kind := by
  cases v with
  | none => rfl
  | some x =>
      cases prov with
      | unavailable => exact absurd rfl hprov
      | _ => rfl

theorem ev_jsonNum {obj : JVal} {key : String} {v : Option Binary64} {prov : Provenance}
    {kind : UnavailKind} {reason : String}
    (hget : obj.get key = some (Doc.jsonNum v prov kind reason).value)
    (hprov : prov ≠ .unavailable)
    (hreason : truncate reasonLimit reason.toList = some reason.toList) (source : String)
    (stamp : ClockStamp) :
    ev obj key source stamp = .ok (loadedReading (optReading prov reason v) kind source stamp) := by
  rw [jsonNum_eq v hprov] at hget
  refine ev_readingNum hget ?_ source stamp
  intro reason' heq
  cases v with
  | none =>
      obtain rfl := Reading.unavailable.inj heq
      exact hreason
  | some x => cases prov <;> cases heq

/-- A plain number is measured, and its freshness is not known. -/
theorem ev_digits {obj : JVal} {key : String} {n : Nat}
    (hget : obj.get key = some (Doc.digits n).value) (source : String) (stamp : ClockStamp) :
    ev obj key source stamp = .ok (bareNumber (.ofNat n) source stamp) := by
  rw [ev, hget]
  rfl

/-! ## Lists -/

/-- A list is loaded element by element. -/
theorem mapM_map_ok {ε α β γ : Type} {load : β → Except ε γ} {write : α → β} {loaded : α → γ}
    {l : List α} (hload : ∀ a ∈ l, load (write a) = .ok (loaded a)) :
    (l.map write).mapM load = .ok (l.map loaded) := by
  induction l with
  | nil => rfl
  | cons a l ih =>
      obtain ⟨ha, hl⟩ := List.forall_mem_cons.mp hload
      rw [List.map_cons, List.mapM_cons, ha, ih hl]
      rfl

theorem arrAt_arr {obj : JVal} {key : String} {items : List Doc}
    (hget : obj.get key = some (Doc.arr items).value) :
    (obj.arrAt key).getD [] = items.map Doc.value := by
  rw [JVal.arrAt, hget, Doc.value_arr]
  rfl

/-! ## A record behind a header -/

theorem loadRecord_collector {v : JVal} {name : String}
    {load : JVal → ClockStamp → SessionData → Except Fault SessionData}
    (hname : v.strAt "collector" = some name) (hload : collectorLoader name = some load)
    (s : SessionData) :
    loadRecord v s = load v (stampOf v) (s.withEvents (firstWall s.wallBaseMs v) s.events) := by
  have hwall : (if s.wallBaseMs = 0 then { s with wallBaseMs := wallMs v } else s) =
      s.withEvents (firstWall s.wallBaseMs v) s.events := by
    unfold firstWall
    split
    next hzero => rfl
    next hzero => rfl
  unfold loadRecord
  rw [hwall, hname, Option.bind_some, hload]

/-- The text of a session with a header and one record. -/
def headed (h : Header) (line : Doc) : String :=
  String.ofList (Lines.terminated [lineText (headerMembers h), line.text])

/-- The session behind its header. -/
def afterHeader (label : String) (h : Header) : SessionData :=
  { (default : SessionData) with label, wallBaseMs := wallMs (lineValue (headerMembers h)) }

theorem loadRecord_header (label : String) (h : Header) :
    loadRecord (lineValue (headerMembers h)) { (default : SessionData) with label } =
      .ok (afterHeader label h) := by
  have hcollector : (lineValue (headerMembers h)).strAt "collector" = none := rfl
  have htype : (lineValue (headerMembers h)).strAt "type" = some "session_header" := rfl
  unfold loadRecord
  rw [hcollector, htype]
  rfl

theorem lines_headed (h : Header) (members : List (String × Doc)) :
    Lines.lines (headed h (.obj members)).toList =
      [lineText (headerMembers h), (Doc.obj members).text] := by
  have hsingle : ∀ l ∈ [lineText (headerMembers h), (Doc.obj members).text], '\n' ∉ l := by
    simp [newline_not_mem_lineText, Doc.newline_not_mem_text]
  have hlines := Lines.lines_terminated hsingle []
  rw [List.append_nil] at hlines
  rw [headed, String.toList_ofList, hlines]
  simp [stripCr_lineText, Lines.stripCr_of_trim (Doc.trim_obj members)]

theorem loadLines_header (label : String) (h : Header) :
    loadLines 1 [lineText (headerMembers h)] { (default : SessionData) with label } =
      .ok (afterHeader label h) := by
  rw [loadLines, trim_lineText, if_neg (lineText_ne_nil _), parse_lineText]
  simp only [loadRecord_header, loadLines]

/-- Behind a header one record is loaded. -/
theorem loadSession_headed (label : String) (h : Header) {members : List (String × Doc)}
    {levels : Nat} (hreads : (Doc.obj members).Reads levels)
    (hlevels : levels ≤ Parser.depthLimit + 1) :
    loadSession label (headed h (.obj members)) =
      loadRecord (Doc.obj members).value (afterHeader label h) := by
  have hsplit : [lineText (headerMembers h), (Doc.obj members).text] =
      [lineText (headerMembers h)] ++ [(Doc.obj members).text] := rfl
  rw [loadSession, lines_headed, hsplit, loadLines_append, loadLines_header]
  change loadLines (1 + [lineText (headerMembers h)].length) [(Doc.obj members).text]
    (afterHeader label h) = _
  rw [Doc.loadLines_obj hreads hlevels]

end PowerForensics.Session
