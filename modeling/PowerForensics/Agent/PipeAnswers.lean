import PowerForensics.Agent.MarkerText
import PowerForensics.Core.JsonPieces

/-! # Answers over the pipe

A client decodes the answer to its request. The answer says what became of the request
if it fits into a frame and the readings in it are finite: a number is formatted as it
is, and no bound on a request bounds the answer, where strings of the service and of the
request are escaped.
-/

namespace PowerForensics.Agent

open Json Ipc

/-- What becomes of a request: the decoder's or the handler's error, or the data. -/
def outcome (svc : Service) (env : Surroundings) (req : String) : Except String String :=
  match decodeRequest req with
  | .error e => .error e
  | .ok (cmd, arg) => (svc.handle env cmd arg).1

/-- The answer fits into a frame and is decoded to the outcome: to data of the same JSON value,
or to the message. -/
def Truthful (answer : String) : Except String String → Prop
  | .ok data => Fits answer ∧
      ∃ v text, parse data = .ok v ∧ decodeResponse answer = .ok text ∧ parse text = .ok v
  | .error e => Fits answer ∧ decodeResponse answer = .error e

/-- The request gets a truthful answer. -/
def Answered (svc : Service) (env : Surroundings) (req : String) : Prop :=
  Truthful (svc.respond env req).1 (outcome svc env req)

/-! ## The bytes of an answer -/

/-- The bytes of a success with data of these bytes. -/
def answerSize (data : Nat) : Nat := objectSize [("ok", 4), ("v", 1), ("data", data)]

/-- The bytes of a failure. -/
def refusalSize (msg : String) : Nat :=
  objectSize [("ok", 5), ("v", 1), ("error", escapedSize msg + 2)]

theorem fits_iff (text : String) : Fits text ↔ byteSize text.toList ≤ ipcMaxFrame := Iff.rfl

theorem fits_encodeResponseOk (data : String) :
    Fits (encodeResponseOk data) ↔ answerSize (byteSize data.toList) ≤ ipcMaxFrame := by
  have htrue : byteSize "true".toList = 4 := by decide
  have hversion : byteSize (Nat.toDigits 10 ipcVersion) = 1 := by decide
  rw [fits_iff, encodeResponseOk, String.toList_ofList, byteSize_objectText]
  simp only [List.map_cons, List.map_nil, htrue, hversion, answerSize]

theorem fits_encodeResponseErr (msg : String) :
    Fits (encodeResponseErr msg) ↔ refusalSize msg ≤ ipcMaxFrame := by
  have hfalse : byteSize "false".toList = 5 := by decide
  have hversion : byteSize (Nat.toDigits 10 ipcVersion) = 1 := by decide
  rw [fits_iff, encodeResponseErr, String.toList_ofList, byteSize_objectText]
  simp only [List.map_cons, List.map_nil, hfalse, hversion, byteSize_quoted, refusalSize]

/-- A failure is decoded to its message. -/
theorem truthful_error (msg : String) :
    Truthful (encodeResponseErr msg) (.error msg) ↔ refusalSize msg ≤ ipcMaxFrame := by
  rw [Truthful, fits_encodeResponseErr]
  exact and_iff_left (decodeResponse_encodeResponseErr msg)

/-- Data that is a piece is decoded to its value exactly if the condition of the piece holds. -/
theorem truthful_ok {data : String} {P : Prop}
    (hpiece : Piece Parser.depthLimit data.toList P) :
    Truthful (encodeResponseOk data) (.ok data) ↔
      answerSize (byteSize data.toList) ≤ ipcMaxFrame ∧ P := by
  rw [Truthful, fits_encodeResponseOk]
  refine and_congr_right fun _ => ⟨?_, fun hP => ?_⟩
  · rintro ⟨v, text, -, hdecode, -⟩
    by_contra hP
    obtain ⟨e, herror⟩ := decodeResponse_refused (hpiece.refuses hP)
    rw [herror] at hdecode
    cases hdecode
  · obtain ⟨v, hfinite, htakes⟩ := hpiece.takes hP
    obtain ⟨hdata, htext⟩ := parse_toJson_of_takes hfinite htakes
    rw [String.ofList_toList] at hdata
    exact ⟨v, toJson v, hdata, decodeResponse_encodeResponseOk htakes, htext⟩

/-! ## The data of the verbs -/

/-- The counters are machine words. -/
structure InRange (svc : Service) (env : Surroundings) : Prop where
  accepted : svc.state.markersTotal + 1 < 2 ^ 64
  dropped : svc.state.markersDropped < 2 ^ 64
  events : svc.snapshot.events < 2 ^ 64
  listed : ∀ entries, env.listing = .ok entries → entries.length < 2 ^ 64

def FiniteReading (o : Option Binary64) : Prop := ∀ x ∈ o, x.isFinite = true

def FiniteSnapshot (s : StateSnapshot) : Prop :=
  FiniteReading s.watts ∧ FiniteReading s.chargeW ∧ FiniteReading s.pct ∧
    FiniteReading s.remainingWh ∧ ∀ o ∈ s.recent, FiniteReading o

/-- The bytes of an escaped string between quotes. -/
def quotedSize (s : String) : Nat := escapedSize s + 2

def boolSize (b : Bool) : Nat := if b then 4 else 5

def digitsSize (n : Nat) : Nat := byteSize (Nat.toDigits 10 n)

def readingSize (o : Option Binary64) : Nat := byteSize (numJson o)

def statusSize (svc : Service) (now : UInt64) : Nat :=
  let s := svc.state
  objectSize
    [("running", boolSize s.running), ("paused", boolSize s.paused),
      ("label", quotedSize s.label),
      ("uptime_ms", digitsSize (if s.running then now.toNat - s.startedWallMs.toNat else 0)),
      ("started_wall_ms", digitsSize s.startedWallMs.toNat),
      ("session_path", (svc.sessionPath.map quotedSize).getD 4),
      ("markers_accepted", digitsSize s.markersTotal),
      ("markers_dropped", digitsSize s.markersDropped)]

def snapshotSize (s : StateSnapshot) : Nat :=
  objectSize
    [("label", quotedSize s.label), ("watts", readingSize s.watts),
      ("charge_w", readingSize s.chargeW), ("battery_pct", readingSize s.pct),
      ("remaining_wh", readingSize s.remainingWh), ("events", digitsSize s.events),
      ("recent_watts", arraySize (s.recent.map readingSize))]

def timelineSize (s : StateSnapshot) : Nat :=
  objectSize
    [("label", quotedSize s.label), ("recent_watts", arraySize (s.recent.map readingSize)),
      ("events", digitsSize s.events)]

def markerSize (accepted : Nat) (text : String) : Nat :=
  objectSize
    [("markers_accepted", digitsSize accepted),
      ("note", quotedSize "marker queued for session"), ("text", quotedSize text)]

def listingSize (svc : Service) : Except String (List String) → Nat
  | .ok entries =>
      let names := (entries.filter Service.isSessionName).mergeSort
      objectSize
        [("sessions", arraySize (names.map quotedSize)), ("count", digitsSize names.length),
          ("note", quotedSize "live sessions dir listing")]
  | .error e =>
      objectSize
        [("sessions", 2), ("count", 1),
          ("note", quotedSize s!"cannot list {svc.sessionsDir}: {e}" + 1)]

section Data

variable {levels : Nat}

theorem Piece.members {members : List (String × List Char)}
    (hmembers : ∀ m ∈ members, Piece levels m.2 True) :
    Piece (levels + 1) (objectText members) True := by
  have hall : List.Forall₂ (fun m P => Piece levels m.2 P) members
      (members.map fun _ => True) := by
    induction members with
    | nil => exact .nil
    | cons m members ih =>
        obtain ⟨hm, hrest⟩ := List.forall_mem_cons.mp hmembers
        exact .cons hm (ih hrest)
  exact (Piece.object members _ hall).congr (by simp)

theorem piece_boolText (b : Bool) : Piece (levels + 1) (boolText b) True := piece_bool b

theorem piece_numJson (o : Option Binary64) :
    Piece (levels + 1) (numJson o) (FiniteReading o) := by
  cases o with
  | none => exact piece_null.congr (by simp [FiniteReading])
  | some x => exact (piece_fixed 3 x).congr (by simp [FiniteReading])

theorem piece_readings (recent : List (Option Binary64)) :
    Piece (levels + 2) (listText (recent.map numJson)) (∀ o ∈ recent, FiniteReading o) := by
  have htexts : List.Forall₂ (Piece (levels + 1)) (recent.map numJson)
      (recent.map FiniteReading) := by
    induction recent with
    | nil => exact .nil
    | cons o recent ih => exact .cons (piece_numJson o) ih
  exact (Piece.array htexts).congr List.forall_mem_map

theorem piece_names (names : List String) :
    Piece (levels + 2) (listText (names.map quoted)) True := by
  have htexts : List.Forall₂ (Piece (levels + 1)) (names.map quoted)
      (names.map fun _ => True) := by
    induction names with
    | nil => exact .nil
    | cons name names ih => exact .cons (piece_quoted name) ih
  exact (Piece.array htexts).congr (by simp)

theorem piece_status {svc : Service} {env : Surroundings} (hrange : InRange svc env) :
    Piece (levels + 2) (svc.statusJson env.now).toList True := by
  have huptime : (if svc.state.running then env.now.toNat - svc.state.startedWallMs.toNat
      else 0) < 2 ^ 64 := by
    have hnow := env.now.toNat_lt
    split <;> omega
  have hpath : Piece (levels + 1) ((svc.sessionPath.map quoted).getD "null".toList) True := by
    cases svc.sessionPath with
    | none => exact piece_null
    | some path => exact piece_quoted path
  have htotal : svc.state.markersTotal < 2 ^ 64 := (Nat.lt_succ_self _).trans hrange.accepted
  rw [Service.statusJson, String.toList_ofList]
  apply Piece.members
  simp only [List.forall_mem_cons, List.not_mem_nil, false_imp_iff, implies_true, and_true]
  exact ⟨piece_boolText _, piece_boolText _, piece_quoted _, piece_digits huptime,
    piece_digits svc.state.startedWallMs.toNat_lt, hpath, piece_digits htotal,
    piece_digits hrange.dropped⟩

theorem piece_snapshot {s : StateSnapshot} (hevents : s.events < 2 ^ 64) :
    Piece (levels + 3) (snapshotJson s).toList (FiniteSnapshot s) := by
  rw [snapshotJson, String.toList_ofList]
  refine (Piece.object _ [True, FiniteReading s.watts, FiniteReading s.chargeW,
    FiniteReading s.pct, FiniteReading s.remainingWh, True, ∀ o ∈ s.recent, FiniteReading o]
    ?_).congr ?_
  · exact .cons (piece_quoted _) (.cons (piece_numJson _) (.cons (piece_numJson _)
      (.cons (piece_numJson _) (.cons (piece_numJson _) (.cons (piece_digits hevents)
        (.cons (piece_readings _) .nil))))))
  · simp only [List.forall_mem_cons, List.not_mem_nil, false_imp_iff, implies_true, and_true,
      true_and, FiniteSnapshot]

theorem piece_timeline {s : StateSnapshot} (hevents : s.events < 2 ^ 64) :
    Piece (levels + 3) (objectText
      [("label", quoted s.label), ("recent_watts", listText (s.recent.map numJson)),
        ("events", Nat.toDigits 10 s.events)]) (∀ o ∈ s.recent, FiniteReading o) := by
  refine (Piece.object _ [True, ∀ o ∈ s.recent, FiniteReading o, True] ?_).congr ?_
  · exact .cons (piece_quoted _) (.cons (piece_readings _) (.cons (piece_digits hevents) .nil))
  · simp only [List.forall_mem_cons, List.not_mem_nil, false_imp_iff, implies_true, and_true,
      true_and]

/-- The listing of a directory that cannot be read ends with a blank. -/
theorem piece_unlisted (note : String) :
    Piece (levels + 2) (objectText
      [("sessions", listText []), ("count", ['0']), ("note", quoted note ++ [' '])]) True := by
  have htext : objectText
      [("sessions", listText []), ("count", ['0']), ("note", quoted note ++ [' '])] =
      '{' :: (commaJoin [memberText "sessions" (listText []), memberText "count" ['0'],
        memberText "note" (quoted note)] ++ ([' '] ++ ['}'])) := by
    simp [objectText, commaJoin, memberText]
  have hsessions : Takes (valueReader (levels + 1)) (listText []) (.arr []) := takes_arr .nil
  have hcount : Takes (valueReader (levels + 1)) ['0'] (.num (.ofNat 0)) := takes_digits 0
  have hfinite : JVal.Finite (.obj [("sessions", .arr []), ("count", .num (.ofNat 0)),
      ("note", .str note)]) := by
    have hzero := Binary64.isFinite_ofNat (n := 0) (by decide)
    simp [JVal.Finite, PairsFinite, ItemsFinite, hzero]
  rw [htext]
  refine .of_takes hfinite (by decide) (by decide) (takes_obj_gap (by decide) ?_)
  exact .cons (takes_pair hsessions _) (.cons (takes_pair hcount _)
    (.cons (takes_pair (takes_quoted note) _) .nil))

theorem piece_listing {svc : Service} {env : Surroundings} (hrange : InRange svc env) :
    Piece (levels + 3) (svc.sessionListJson env.listing).toList True := by
  unfold Service.sessionListJson
  cases hlisting : env.listing with
  | error e =>
      rw [String.toList_ofList]
      exact piece_unlisted _
  | ok entries =>
      have hcount : ((entries.filter Service.isSessionName).mergeSort).length < 2 ^ 64 := by
        rw [List.length_mergeSort]
        exact (List.length_filter_le _ _).trans_lt (hrange.listed entries hlisting)
      rw [String.toList_ofList]
      apply Piece.members
      simp only [List.forall_mem_cons, List.not_mem_nil, false_imp_iff, implies_true, and_true]
      exact ⟨piece_names _, piece_digits hcount, piece_quoted _⟩

theorem piece_marker {svc : Service} {env : Surroundings} (hrange : InRange svc env)
    (text : String) :
    Piece (levels + 2) (objectText
      [("markers_accepted", Nat.toDigits 10 (svc.state.markersTotal + 1)),
        ("note", quoted "marker queued for session"), ("text", quoted text)]) True := by
  apply Piece.members
  simp only [List.forall_mem_cons, List.not_mem_nil, false_imp_iff, implies_true, and_true]
  exact ⟨piece_digits hrange.accepted, piece_quoted _, piece_quoted _⟩

end Data

/-! ## The bytes of the data -/

theorem byteSize_boolText (b : Bool) : byteSize (boolText b) = boolSize b := by
  cases b <;> decide

theorem byteSize_listText (texts : List (List Char)) :
    byteSize (listText texts) = arraySize (texts.map byteSize) := byteSize_array texts

theorem byteSize_status (svc : Service) (now : UInt64) :
    byteSize (svc.statusJson now).toList = statusSize svc now := by
  have hpath : byteSize ((svc.sessionPath.map quoted).getD "null".toList) =
      (svc.sessionPath.map quotedSize).getD 4 := by
    cases svc.sessionPath with
    | none => decide
    | some path => exact byteSize_quoted path
  rw [Service.statusJson, String.toList_ofList, byteSize_objectText]
  simp only [List.map_cons, List.map_nil, byteSize_boolText, byteSize_quoted, hpath, statusSize,
    quotedSize, digitsSize]

theorem byteSize_snapshot (s : StateSnapshot) :
    byteSize (snapshotJson s).toList = snapshotSize s := by
  rw [snapshotJson, String.toList_ofList, byteSize_objectText]
  simp only [List.map_cons, List.map_nil, byteSize_quoted, byteSize_listText, List.map_map,
    snapshotSize, quotedSize, digitsSize]
  rfl

theorem byteSize_timeline (s : StateSnapshot) :
    byteSize (objectText
      [("label", quoted s.label), ("recent_watts", listText (s.recent.map numJson)),
        ("events", Nat.toDigits 10 s.events)]) = timelineSize s := by
  rw [byteSize_objectText]
  simp only [List.map_cons, List.map_nil, byteSize_quoted, byteSize_listText, List.map_map,
    timelineSize, quotedSize, digitsSize]
  rfl

theorem byteSize_marker (accepted : Nat) (text : String) :
    byteSize (objectText
      [("markers_accepted", Nat.toDigits 10 accepted),
        ("note", quoted "marker queued for session"), ("text", quoted text)]) =
      markerSize accepted text := by
  rw [byteSize_objectText]
  simp only [List.map_cons, List.map_nil, byteSize_quoted, markerSize, quotedSize, digitsSize]

theorem byteSize_listing (svc : Service) (listing : Except String (List String)) :
    byteSize (svc.sessionListJson listing).toList = listingSize svc listing := by
  have hquoted : byteSize ∘ quoted = quotedSize := funext byteSize_quoted
  cases listing with
  | ok entries =>
      rw [Service.sessionListJson, String.toList_ofList, byteSize_objectText]
      simp only [List.map_cons, List.map_nil, byteSize_quoted, byteSize_listText, List.map_map,
        hquoted, listingSize, digitsSize]
      rfl
  | error e =>
      have hzero : byteSize ['0'] = 1 := by decide
      have hblank : byteSize [' '] = 1 := by decide
      rw [Service.sessionListJson, String.toList_ofList, byteSize_objectText]
      simp only [List.map_cons, List.map_nil, byteSize_append, byteSize_quoted, byteSize_listText,
        hzero, hblank, listingSize, quotedSize]
      rfl

/-! ## The dispatch -/

theorem noArg_none {arg : Option String} (harg : decodeArgText arg = none) :
    noArg arg = .ok () := by
  rw [noArg, harg]

/-- The refusal of an argument, which quotes it. -/
def argumentMessage (a : String) : String :=
  s!"verb takes no ARG (got \"{String.ofList (escapeJson a)}\")"

theorem noArg_some {arg : Option String} {a : String} (harg : decodeArgText arg = some a) :
    noArg arg = .error (argumentMessage a) := by
  rw [noArg, harg]
  rfl

theorem handle_refuses (svc : Service) (env : Surroundings) {cmd : String} {arg : Option String}
    {a : String} (hvalid : isValidVerb cmd = true) (hcmd : cmd ≠ "marker")
    (harg : decodeArgText arg = some a) :
    (svc.handle env cmd arg).1 = .error (argumentMessage a) := by
  have hmem : cmd ∈ validVerbs := of_decide_eq_true hvalid
  simp only [validVerbs, List.mem_cons, List.not_mem_nil, or_false, hcmd, false_or] at hmem
  rcases hmem with rfl | rfl | rfl | rfl | rfl | rfl | rfl | rfl <;>
    simp [Service.handle, noArg_some harg]

theorem isValidVerb_of_decodeRequest {req cmd : String} {arg : Option String}
    (hdecode : decodeRequest req = .ok (cmd, arg)) : isValidVerb cmd = true := by
  unfold decodeRequest at hdecode
  split at hdecode
  · cases hdecode
  split at hdecode
  · cases hdecode
  split at hdecode
  · cases hdecode
  split at hdecode
  · cases hdecode
  split at hdecode
  next hvalid =>
    simp only [Except.ok.injEq, Prod.mk.injEq] at hdecode
    rw [← hdecode.1]
    exact hvalid
  · cases hdecode

theorem answered_of_ok {svc : Service} {env : Surroundings} {req cmd data : String}
    {arg : Option String} (hdecode : decodeRequest req = .ok (cmd, arg))
    (hdata : (svc.handle env cmd arg).1 = .ok data) :
    Answered svc env req ↔ Truthful (encodeResponseOk data) (.ok data) := by
  cases hhandle : svc.handle env cmd arg with
  | mk result svc' =>
      rw [hhandle] at hdata
      obtain rfl : result = .ok data := hdata
      simp only [Answered, outcome, Service.respond, hdecode, hhandle]

theorem answered_of_error {svc : Service} {env : Surroundings} {req cmd e : String}
    {arg : Option String} (hdecode : decodeRequest req = .ok (cmd, arg))
    (herror : (svc.handle env cmd arg).1 = .error e) :
    Answered svc env req ↔ refusalSize e ≤ ipcMaxFrame := by
  cases hhandle : svc.handle env cmd arg with
  | mk result svc' =>
      rw [hhandle] at herror
      obtain rfl : result = .error e := herror
      simp only [Answered, outcome, Service.respond, hdecode, hhandle, truthful_error]

/-! ## When requests are answered -/

/-- The data of a verb without an argument fits, and the readings in it are finite. -/
def Room (svc : Service) (env : Surroundings) (cmd : String) : Prop :=
  if cmd = "status" then answerSize (statusSize svc env.now) ≤ ipcMaxFrame
  else if cmd = "snapshot" then
    answerSize (snapshotSize svc.snapshot) ≤ ipcMaxFrame ∧ FiniteSnapshot svc.snapshot
  else if cmd = "recent_timeline" then
    answerSize (timelineSize svc.snapshot) ≤ ipcMaxFrame ∧
      ∀ o ∈ svc.snapshot.recent, FiniteReading o
  else if cmd = "session_list" then answerSize (listingSize svc env.listing) ≤ ipcMaxFrame
  else True

/-- The strings that the answer repeats leave it within a frame, and its readings are finite. -/
def Answerable (svc : Service) (env : Surroundings) (req : String) : Prop :=
  match decodeRequest req with
  | .error e => refusalSize e ≤ ipcMaxFrame
  | .ok (cmd, arg) =>
      match decodeArgText arg with
      | none => Room svc env cmd
      | some text =>
          if cmd = "marker" then
            answerSize (markerSize (svc.state.markersTotal + 1) text) ≤ ipcMaxFrame
          else refusalSize (argumentMessage text) ≤ ipcMaxFrame

section Verbs

variable {svc : Service} {env : Surroundings} {req : String} {arg : Option String}

/-- A short value and a note always fit. -/
theorem answered_note {cmd : String} (key note : String) {value : List Char}
    (hdecode : decodeRequest req = .ok (cmd, arg))
    (hdata : (svc.handle env cmd arg).1 =
      .ok (String.ofList (objectText [(key, value), ("note", quoted note)])))
    (hvalue : Piece (Parser.depthLimit - 1) value True)
    (hsize : escapedSize key + byteSize value + escapedSize note ≤ 100) :
    Answered svc env req := by
  have hpiece : Piece Parser.depthLimit (objectText [(key, value), ("note", quoted note)])
      True := by
    apply Piece.members
    simp only [List.forall_mem_cons, List.not_mem_nil, false_imp_iff, implies_true, and_true]
    exact ⟨hvalue, piece_quoted note⟩
  rw [answered_of_ok hdecode hdata, truthful_ok (by rwa [String.toList_ofList]),
    String.toList_ofList, byteSize_objectText]
  have hok : escapedSize "ok" = 2 := by decide
  have hversion : escapedSize "v" = 1 := by decide
  have hdataKey : escapedSize "data" = 4 := by decide
  have hnote : escapedSize "note" = 4 := by decide
  have hmax : ipcMaxFrame = 8388608 := rfl
  simp only [List.map_cons, List.map_nil, byteSize_quoted, answerSize, objectSize, joinedSize, hok,
    hversion, hdataKey, hnote, hmax, and_true]
  omega

theorem answered_stop (hdecode : decodeRequest req = .ok ("stop", arg))
    (harg : decodeArgText arg = none) : Answered svc env req := by
  refine answered_note "running" "agent stopped" hdecode ?_ (piece_boolText false) (by decide)
  have htext : "\x7b\"running\":false,\"note\":\"agent stopped\"\x7d" = String.ofList (objectText
      [("running", boolText false), ("note", quoted "agent stopped")]) := by decide
  simp [Service.handle, noArg_none harg, htext]

theorem answered_pause (hdecode : decodeRequest req = .ok ("pause", arg))
    (harg : decodeArgText arg = none) : Answered svc env req := by
  have hsize : ∀ b, escapedSize "paused" + byteSize (boolText b) +
      escapedSize "pause requested" ≤ 100 := by decide
  refine answered_note "paused" "pause requested" hdecode ?_
    (piece_boolText svc.pauseSection.state.paused) (hsize _)
  simp [Service.handle, noArg_none harg]

theorem answered_resume (hdecode : decodeRequest req = .ok ("resume", arg))
    (harg : decodeArgText arg = none) : Answered svc env req := by
  refine answered_note "paused" "agent resumed" hdecode ?_ (piece_boolText false) (by decide)
  have htext : "\x7b\"paused\":false,\"note\":\"agent resumed\"\x7d" = String.ofList (objectText
      [("paused", boolText false), ("note", quoted "agent resumed")]) := by decide
  simp [Service.handle, noArg_none harg, htext]

theorem answered_events (hrange : InRange svc env)
    (hdecode : decodeRequest req = .ok ("events", arg)) (harg : decodeArgText arg = none) :
    Answered svc env req := by
  have hfixed : escapedSize "events" +
      escapedSize "live count only; details live in sessions" = 47 := by decide
  have hdigits := byteSize_digits hrange.events
  refine answered_note "events" "live count only; details live in sessions" hdecode ?_
    (piece_digits hrange.events) ?_
  · simp [Service.handle, noArg_none harg]
  · omega

theorem answered_status (hrange : InRange svc env)
    (hdecode : decodeRequest req = .ok ("status", arg)) (harg : decodeArgText arg = none) :
    Answered svc env req ↔ Room svc env "status" := by
  have hdata : (svc.handle env "status" arg).1 = .ok (svc.statusJson env.now) := by
    simp [Service.handle, noArg_none harg]
  rw [answered_of_ok hdecode hdata, truthful_ok (piece_status hrange), byteSize_status]
  simp [Room]

theorem answered_snapshot (hrange : InRange svc env)
    (hdecode : decodeRequest req = .ok ("snapshot", arg)) (harg : decodeArgText arg = none) :
    Answered svc env req ↔ Room svc env "snapshot" := by
  have hdata : (svc.handle env "snapshot" arg).1 = .ok (snapshotJson svc.snapshot) := by
    simp [Service.handle, noArg_none harg]
  rw [answered_of_ok hdecode hdata, truthful_ok (piece_snapshot hrange.events),
    byteSize_snapshot]
  simp [Room]

theorem answered_timeline (hrange : InRange svc env)
    (hdecode : decodeRequest req = .ok ("recent_timeline", arg))
    (harg : decodeArgText arg = none) :
    Answered svc env req ↔ Room svc env "recent_timeline" := by
  have hdata : (svc.handle env "recent_timeline" arg).1 = .ok (String.ofList (objectText
      [("label", quoted svc.snapshot.label),
        ("recent_watts", listText (svc.snapshot.recent.map numJson)),
        ("events", Nat.toDigits 10 svc.snapshot.events)])) := by
    simp [Service.handle, noArg_none harg]
  have hpiece : Piece Parser.depthLimit _ _ := piece_timeline hrange.events
  rw [answered_of_ok hdecode hdata, truthful_ok (by rwa [String.toList_ofList]),
    String.toList_ofList, byteSize_timeline]
  simp [Room]

theorem answered_listing (hrange : InRange svc env)
    (hdecode : decodeRequest req = .ok ("session_list", arg))
    (harg : decodeArgText arg = none) :
    Answered svc env req ↔ Room svc env "session_list" := by
  have hdata : (svc.handle env "session_list" arg).1 = .ok (svc.sessionListJson env.listing) := by
    simp [Service.handle, noArg_none harg]
  rw [answered_of_ok hdecode hdata, truthful_ok (piece_listing hrange), byteSize_listing]
  simp [Room]

theorem answered_marker (hrange : InRange svc env) {text : String}
    (hdecode : decodeRequest req = .ok ("marker", arg)) (harg : decodeArgText arg = some text) :
    Answered svc env req ↔
      answerSize (markerSize (svc.state.markersTotal + 1) text) ≤ ipcMaxFrame := by
  have hdata : (svc.handle env "marker" arg).1 = .ok (String.ofList (objectText
      [("markers_accepted", Nat.toDigits 10 (svc.state.markersTotal + 1)),
        ("note", quoted "marker queued for session"), ("text", quoted text)])) := by
    simp [Service.handle, harg, Service.addMarker, Service.count, Service.enqueue]
    split <;> rfl
  have hpiece : Piece Parser.depthLimit _ _ := piece_marker hrange text
  rw [answered_of_ok hdecode hdata, truthful_ok (by rwa [String.toList_ofList]),
    String.toList_ofList, byteSize_marker]
  exact and_iff_left trivial

/-- A request without an argument. -/
theorem answered_none (hrange : InRange svc env) {cmd : String}
    (hdecode : decodeRequest req = .ok (cmd, arg)) (harg : decodeArgText arg = none) :
    Answered svc env req ↔ Room svc env cmd := by
  have hmem : cmd ∈ validVerbs := of_decide_eq_true (isValidVerb_of_decodeRequest hdecode)
  simp only [validVerbs, List.mem_cons, List.not_mem_nil, or_false] at hmem
  rcases hmem with rfl | rfl | rfl | rfl | rfl | rfl | rfl | rfl | rfl
  · exact answered_status hrange hdecode harg
  · exact answered_snapshot hrange hdecode harg
  · exact iff_of_true (answered_stop hdecode harg) (by simp [Room])
  · exact iff_of_true (answered_pause hdecode harg) (by simp [Room])
  · exact iff_of_true (answered_resume hdecode harg) (by simp [Room])
  · have herror : (svc.handle env "marker" arg).1 = .error "marker needs a text ARG" := by
      simp [Service.handle, harg]
    refine iff_of_true ((answered_of_error hdecode herror).mpr (by decide)) (by simp [Room])
  · exact answered_timeline hrange hdecode harg
  · exact iff_of_true (answered_events hrange hdecode harg) (by simp [Room])
  · exact answered_listing hrange hdecode harg

end Verbs

/-- The answer repeats the text of the marker in more words than the request. -/
theorem answerSize_marker (t : String) : answerSize (markerSize 1 t) = escapedSize t + 92 := by
  have hcount : digitsSize 1 = 1 := by decide
  have hkeys : escapedSize "ok" + escapedSize "v" + escapedSize "data" +
      escapedSize "markers_accepted" + escapedSize "note" + escapedSize "text" +
      escapedSize "marker queued for session" = 56 := by decide
  simp only [answerSize, markerSize, objectSize, joinedSize, List.map_cons, List.map_nil,
    quotedSize, hcount]
  omega

/-- A request is answered truthfully exactly if the strings that its answer repeats leave it
within a frame and the readings in it are finite. -/
theorem answered_iff_answerable {svc : Service} {env : Surroundings} (hrange : InRange svc env)
    (req : String) : Answered svc env req ↔ Answerable svc env req := by
  unfold Answerable
  cases hdecode : decodeRequest req with
  | error e => simp only [Answered, outcome, Service.respond, hdecode, truthful_error]
  | ok request =>
      obtain ⟨cmd, arg⟩ := request
      dsimp only
      cases harg : decodeArgText arg with
      | none => exact answered_none hrange hdecode harg
      | some text =>
          dsimp only
          split
          next hcmd =>
            subst hcmd
            exact answered_marker hrange hdecode harg
          next hcmd =>
            exact answered_of_error hdecode
              (handle_refuses svc env (isValidVerb_of_decodeRequest hdecode) hcmd harg)

theorem inRange_new : InRange (Service.new "sessions") ⟨5, .ok []⟩ where
  accepted := by decide
  dropped := by decide
  events := by decide
  listed := by
    intro entries hlisting
    obtain rfl : entries = [] := (Except.ok.inj hlisting).symm
    decide

/-- A marker on a new service. -/
theorem answered_iff_answerable_marker :
    InRange (Service.new "sessions") ⟨5, .ok []⟩ ∧
      Answered (Service.new "sessions") ⟨5, .ok []⟩ (markerRequest "lunch") := by
  have htotal : (Service.new "sessions").state.markersTotal + 1 = 1 := rfl
  have hsize : escapedSize "lunch" = 5 := by decide
  refine ⟨inRange_new, ?_⟩
  rw [answered_iff_answerable inRange_new]
  simp only [Answerable, decodeRequest_markerRequest, decodeArgText_str, if_true, htotal,
    answerSize_marker, hsize]
  decide

/-! ## A marker that is queued and not acknowledged -/

theorem byteSize_markerRequest (t : String) :
    byteSize (markerRequest t).toList = escapedSize t + 54 := by
  have hversion : byteSize (Nat.toDigits 10 ipcVersion) = 1 := by decide
  have hkeys : escapedSize "v" + escapedSize "cmd" + escapedSize "arg" +
      escapedSize "tool_version" + escapedSize "marker" + escapedSize toolVersion = 30 := by decide
  rw [markerRequest, encodeRequest, String.toList_ofList, byteSize_objectText]
  simp only [List.map_cons, List.map_nil, byteSize_quoted, Option.getD_some, String.toList_ofList,
    objectSize, joinedSize, hversion]
  omega

theorem escapedSize_replicate (n : Nat) :
    escapedSize (String.ofList (List.replicate n 'a')) = n := by
  have hsize : escapedCharSize 'a' = 1 := by decide
  rw [escapedSize, String.toList_ofList]
  induction n with
  | zero => rfl
  | succ n ih => rw [List.replicate_succ, List.foldr_cons, ih, hsize, Nat.add_comm]

/-- A marker that fits into a frame is queued, and its answer does not fit. -/
theorem marker_unacknowledged : ∃ t, Fits (markerRequest t) ∧
    ((Service.new "sessions").respond ⟨5, .ok []⟩ (markerRequest t)).2.markers = [(5, t)] ∧
    ¬ Answered (Service.new "sessions") ⟨5, .ok []⟩ (markerRequest t) := by
  have hlong : ∀ n, n + 54 ≤ ipcMaxFrame → ipcMaxFrame < n + 92 → ∃ t, Fits (markerRequest t) ∧
      ((Service.new "sessions").respond ⟨5, .ok []⟩ (markerRequest t)).2.markers = [(5, t)] ∧
      ¬ Answered (Service.new "sessions") ⟨5, .ok []⟩ (markerRequest t) := by
    intro n hrequest hanswer
    have hsize := escapedSize_replicate n
    refine ⟨String.ofList (List.replicate n 'a'), ?_, ?_, ?_⟩
    · rw [fits_iff, byteSize_markerRequest, hsize]
      exact hrequest
    · obtain ⟨queued, hqueued, hmarkers⟩ := respond_markerRequest (Service.new "sessions")
        ⟨5, .ok []⟩ (String.ofList (List.replicate n 'a'))
      obtain rfl : queued = [] := List.suffix_nil.mp hqueued
      exact hmarkers
    · have htotal : (Service.new "sessions").state.markersTotal + 1 = 1 := rfl
      rw [answered_marker inRange_new (decodeRequest_markerRequest _) (decodeArgText_str _), htotal,
        answerSize_marker, hsize]
      exact Nat.not_le.mpr hanswer
  exact hlong 8388540 (by decide) (by decide)

end PowerForensics.Agent
