import PowerForensics.Core.JsonText
import PowerForensics.Core.Session
import PowerForensics.Text.Framing
import PowerForensics.Text.LittleEndian

/-! # The pipe protocol

A message is framed by its length, four bytes with the lowest first, and its text in
UTF-8. Requests carry the protocol version, a verb and an argument that is a JSON
fragment; the argument comes out of a request in the compact form of the printer.
-/

namespace PowerForensics.Ipc

open Json

/-- The largest message that is accepted, in bytes. -/
def ipcMaxFrame : Nat := 8 * 1024 * 1024

/-- The version that requests and responses carry. -/
def ipcVersion : Nat := 1

def toolVersion : String := "0.1.0"

/-- The verbs that the daemon implements. -/
def validVerbs : List String :=
  ["status", "snapshot", "stop", "pause", "resume", "marker", "recent_timeline", "events",
    "session_list"]

def isValidVerb (cmd : String) : Bool := cmd ∈ validVerbs

/-! ## Requests -/

/-- A request; the argument is a JSON text already. -/
def encodeRequest (cmd : String) (argJson : Option String) : String :=
  String.ofList (objectText
    [("v", Nat.toDigits 10 ipcVersion), ("cmd", quoted cmd),
      ("arg", (argJson.getD "null").toList), ("tool_version", quoted toolVersion)])

/-- The argument of a request in canonical form, unless it is null. -/
def canonicalArg : Option JVal → Option String
  | none | some .null => none
  | some a => some (toJson a)

/-- The verb and the argument of a request. -/
def decodeRequest (text : String) : Except String (String × Option String) :=
  match parse text with
  | .error e => .error s!"bad request JSON: {e}"
  | .ok v =>
      match v.numAt "v" with
      | none => .error "request JSON lacks numeric \"v\""
      | some ver =>
          if ver ≠ .ofNat ipcVersion then
            .error s!"unsupported IPC version: {String.ofList ver.display} (need {ipcVersion})"
          else
            match v.strAt "cmd" with
            | none => .error "request JSON lacks string \"cmd\""
            | some cmd =>
                if isValidVerb cmd then .ok (cmd, canonicalArg (v.get "arg"))
                else .error s!"unknown verb: {cmd}"

/-- A verb comes out of its request with the argument that its text denotes. -/
theorem decodeRequest_encodeRequest {cmd : String} (hcmd : isValidVerb cmd = true)
    {arg : String} {v : JVal} (harg : Takes (valueReader Parser.depthLimit) arg.toList v) :
    decodeRequest (encodeRequest cmd (some arg)) = .ok (cmd, canonicalArg (some v)) := by
  have hparse : parse (encodeRequest cmd (some arg)) =
      .ok (.obj [("v", .num (.ofNat ipcVersion)), ("cmd", .str cmd), ("arg", v),
        ("tool_version", .str toolVersion)]) := by
    apply parse_of_takes
    rw [encodeRequest, String.toList_ofList]
    refine takes_objectText [("v", Nat.toDigits 10 ipcVersion, .num (.ofNat ipcVersion)),
      ("cmd", quoted cmd, .str cmd), ("arg", arg.toList, v),
      ("tool_version", quoted toolVersion, .str toolVersion)] ?_
    simp only [List.forall_mem_cons, List.not_mem_nil, false_imp_iff, implies_true, and_true]
    exact ⟨takes_digits _, takes_quoted _, harg, takes_quoted _⟩
  simp only [decodeRequest, hparse, JVal.numAt, JVal.strAt, get_obj_cons,
    String.reduceEq, Option.bind_some, JVal.num?, JVal.asStr, ne_eq, not_true_eq_false, if_false,
    hcmd, if_true]

/-! ## Responses -/

/-- A success with the JSON text of its data. -/
def encodeResponseOk (dataJson : String) : String :=
  String.ofList (objectText
    [("ok", "true".toList), ("v", Nat.toDigits 10 ipcVersion), ("data", dataJson.toList)])

def encodeResponseErr (msg : String) : String :=
  String.ofList (objectText
    [("ok", "false".toList), ("v", Nat.toDigits 10 ipcVersion), ("error", quoted msg)])

/-- The data of a success as JSON text, or the message of a failure. -/
def decodeResponse (text : String) : Except String String :=
  match parse text with
  | .error e => .error s!"bad response JSON: {e}"
  | .ok v =>
      match (v.get "ok").bind JVal.asBool with
      | none => .error "response JSON lacks boolean \"ok\""
      | some true =>
          match v.get "data" with
          | none | some .null => .ok "null"
          | some d => .ok (toJson d)
      | some false => .error (((v.get "error").bind JVal.asStr).getD "agent error")

/-- Data that is read as a value comes out in the canonical form of the value. -/
theorem decodeResponse_encodeResponseOk {data : String} {v : JVal}
    (hdata : Takes (valueReader Parser.depthLimit) data.toList v) :
    decodeResponse (encodeResponseOk data) = .ok (toJson v) := by
  have hparse : parse (encodeResponseOk data) =
      .ok (.obj [("ok", .bool true), ("v", .num (.ofNat ipcVersion)), ("data", v)]) := by
    apply parse_of_takes
    rw [encodeResponseOk, String.toList_ofList]
    refine takes_objectText [("ok", "true".toList, .bool true),
      ("v", Nat.toDigits 10 ipcVersion, .num (.ofNat ipcVersion)), ("data", data.toList, v)] ?_
    simp only [List.forall_mem_cons, List.not_mem_nil, false_imp_iff, implies_true, and_true]
    exact ⟨takes_true, takes_digits _, hdata⟩
  simp only [decodeResponse, hparse, get_obj_cons, String.reduceEq, if_true, if_false,
    Option.bind_some, JVal.asBool]
  cases v <;> rfl

theorem decodeResponse_encodeResponseErr (msg : String) :
    decodeResponse (encodeResponseErr msg) = .error msg := by
  have hparse : parse (encodeResponseErr msg) =
      .ok (.obj [("ok", .bool false), ("v", .num (.ofNat ipcVersion)), ("error", .str msg)]) := by
    apply parse_of_takes
    rw [encodeResponseErr, String.toList_ofList]
    refine takes_objectText [("ok", "false".toList, .bool false),
      ("v", Nat.toDigits 10 ipcVersion, .num (.ofNat ipcVersion)),
      ("error", quoted msg, .str msg)] ?_
    simp only [List.forall_mem_cons, List.not_mem_nil, false_imp_iff, implies_true, and_true]
    exact ⟨takes_false, takes_digits _, takes_quoted _⟩
  simp only [decodeResponse, hparse, get_obj_cons, String.reduceEq, if_true, if_false,
    Option.bind_some, JVal.asBool, JVal.asStr, Option.getD_some]

/-- Data that is refused is no response. -/
theorem decodeResponse_refused {data : String}
    (hdata : Refuses (valueReader Parser.depthLimit) data.toList) :
    ∃ e, decodeResponse (encodeResponseOk data) = .error e := by
  have hrefuses : Refuses (valueReader (Parser.depthLimit + 1))
      (objectText [("ok", "true".toList), ("v", Nat.toDigits 10 ipcVersion),
        ("data", data.toList)]) := by
    have hok : Takes (valueReader Parser.depthLimit) "true".toList (.bool true) := takes_true
    have hversion : Takes (valueReader Parser.depthLimit) (Nat.toDigits 10 ipcVersion)
        (.num (.ofNat ipcVersion)) := takes_digits _
    refine refuses_objectText (fun m hm => ?_) ⟨("data", data.toList), by simp, hdata⟩
    rcases List.mem_cons.mp hm with rfl | hm
    · exact Or.inr ⟨_, hok⟩
    rcases List.mem_cons.mp hm with rfl | hm
    · exact Or.inr ⟨_, hversion⟩
    obtain rfl := List.mem_singleton.mp hm
    exact Or.inl hdata
  cases hparse : parse (encodeResponseOk data) with
  | error e => exact ⟨_, by rw [decodeResponse, hparse]⟩
  | ok v =>
      rw [encodeResponseOk] at hparse
      exact absurd hparse (not_parse_of_refuses hrefuses v)

/-! ## Frames -/

def frame (payload : List UInt8) : List UInt8 :=
  LittleEndian.encode 4 payload.length ++ payload

/-- The length that the front of a buffer announces. -/
def announced (buf : List UInt8) : Nat := LittleEndian.decode (buf.take 4)

def tooLarge (len : Nat) : String := s!"frame too large: {len} bytes (max {ipcMaxFrame})"

/-- One message off the front of a buffer, with the number of bytes it takes up. -/
def tryDeframe (buf : List UInt8) : Except String (Option (String × Nat)) :=
  if buf.length < 4 then .ok none
  else
    let len := announced buf
    if len > ipcMaxFrame then .error (tooLarge len)
    else if buf.length < 4 + len then .ok none
    else
      match Utf8.fromUtf8 ((buf.drop 4).take len) with
      | .ok text => .ok (some (text, 4 + len))
      | .error e => .error s!"frame is not UTF-8: {e}"

/-- A message that fits into a frame. -/
def Fits (text : String) : Prop := (Utf8.bytes text).length ≤ ipcMaxFrame

instance (text : String) : Decidable (Fits text) := inferInstanceAs (Decidable (_ ≤ _))

def framed (text : String) : List UInt8 := frame (Utf8.bytes text)

@[simp] theorem length_frame (payload : List UInt8) :
    (frame payload).length = 4 + payload.length := by
  simp [frame]

theorem announced_frame {payload : List UInt8} (hlen : payload.length < 2 ^ 32)
    (later : List UInt8) : announced (frame payload ++ later) = payload.length := by
  have htake : (frame payload ++ later).take 4 = LittleEndian.encode 4 payload.length := by
    rw [frame, List.append_assoc]
    exact List.take_left' (LittleEndian.length_encode _ _)
  rw [announced, htake]
  exact LittleEndian.decode_encode_of_lt hlen

theorem frame_drop (payload later : List UInt8) :
    ((frame payload ++ later).drop 4).take payload.length = payload := by
  rw [frame, List.append_assoc, List.drop_left' (LittleEndian.length_encode _ _)]
  exact List.take_left

/-- The bytes of a whole frame are its length and the payload. -/
theorem eq_frame_append {buf : List UInt8} (hlen : 4 + announced buf ≤ buf.length) :
    buf = frame ((buf.drop 4).take (announced buf)) ++ buf.drop (4 + announced buf) := by
  have hfour : (buf.take 4).length = 4 := by
    rw [List.length_take]
    omega
  have hpayload : ((buf.drop 4).take (announced buf)).length = announced buf := by
    rw [List.length_take, List.length_drop]
    omega
  have hfront : LittleEndian.encode 4 (announced buf) = buf.take 4 := by
    have hdecode := LittleEndian.encode_decode (buf.take 4)
    rwa [hfour] at hdecode
  calc buf = buf.take 4 ++ buf.drop 4 := (List.take_append_drop 4 buf).symm
    _ = buf.take 4 ++ ((buf.drop 4).take (announced buf) ++
          (buf.drop 4).drop (announced buf)) := by
        rw [List.take_append_drop (announced buf) (buf.drop 4)]
    _ = _ := by rw [frame, hpayload, hfront, List.drop_drop, List.append_assoc]

theorem tryDeframe_short {buf : List UInt8} (hlen : buf.length < 4) :
    tryDeframe buf = .ok none := if_pos hlen

theorem tryDeframe_large {buf : List UInt8} (hlen : 4 ≤ buf.length)
    (hlarge : ipcMaxFrame < announced buf) :
    tryDeframe buf = .error (tooLarge (announced buf)) := by
  rw [tryDeframe, if_neg (by omega)]
  exact if_pos hlarge

/-- The length has arrived, but not all of the payload. -/
theorem tryDeframe_waits {buf : List UInt8} (hfits : announced buf ≤ ipcMaxFrame)
    (hlen : buf.length < 4 + announced buf) : tryDeframe buf = .ok none := by
  unfold tryDeframe
  split
  · rfl
  · dsimp only
    rw [if_neg (Nat.not_lt.mpr hfits), if_pos hlen]

/-- A whole frame is read by its payload alone. -/
theorem tryDeframe_frame {payload : List UInt8} (hfits : payload.length ≤ ipcMaxFrame)
    (later : List UInt8) :
    tryDeframe (frame payload ++ later) =
      match Utf8.fromUtf8 payload with
      | .ok text => .ok (some (text, (frame payload).length))
      | .error e => .error s!"frame is not UTF-8: {e}" := by
  have hmax : ipcMaxFrame < 2 ^ 32 := by decide
  have hannounced := announced_frame (hfits.trans_lt hmax) later
  have hlen : (frame payload ++ later).length = 4 + payload.length + later.length := by
    rw [List.length_append, length_frame]
  rw [tryDeframe, if_neg (by omega)]
  dsimp only
  rw [hannounced, if_neg (Nat.not_lt.mpr hfits), if_neg (by omega), frame_drop, length_frame]

/-- What is taken off a buffer is a whole frame of the text, within the limit. -/
theorem frame_of_tryDeframe {buf : List UInt8} {text : String} {used : Nat}
    (hread : tryDeframe buf = .ok (some (text, used))) :
    used ≤ buf.length ∧ buf.take used = framed text ∧ Fits text := by
  unfold tryDeframe at hread
  split at hread
  · cases hread
  next hfour =>
    dsimp only at hread
    split at hread
    · cases hread
    next hfits =>
      split at hread
      · cases hread
      next hlen =>
        split at hread
        next text' htext =>
          simp only [Except.ok.injEq, Option.some.injEq, Prod.mk.injEq] at hread
          obtain ⟨rfl, rfl⟩ := hread
          have hbytes := Utf8.bytes_of_fromUtf8 htext
          have henough : 4 + announced buf ≤ buf.length := by omega
          have hwhole := eq_frame_append henough
          rw [← hbytes] at hwhole
          have hcount : (framed text').length = 4 + announced buf := by
            rw [framed, hbytes, length_frame, List.length_take, List.length_drop]
            omega
          refine ⟨by omega, ?_, ?_⟩
          · have htake := congrArg (List.take (4 + announced buf)) hwhole
            exact htake.trans (List.take_left' hcount)
          · rw [framed, length_frame] at hcount
            unfold Fits
            omega
        next => cases hread

/-! ## Streams of frames -/

theorem tryDeframe_torn {payload front : List UInt8} (hfits : payload.length ≤ ipcMaxFrame)
    (htorn : Framing.Torn (frame payload) front) : tryDeframe front = .ok none := by
  obtain ⟨⟨later, hlater⟩, hne⟩ := htorn
  have hlen : front.length < 4 + payload.length := by
    have hle := congrArg List.length hlater
    rw [List.length_append, length_frame] at hle
    have hpos : later ≠ [] := by
      rintro rfl
      exact hne (by simpa using hlater)
    have := List.length_pos_of_ne_nil hpos
    omega
  rcases Nat.lt_or_ge front.length 4 with hshort | hfour
  · exact tryDeframe_short hshort
  · -- the length has arrived whole
    have hannounced : announced front = payload.length := by
      have hmax : ipcMaxFrame < 2 ^ 32 := by decide
      rw [← announced_frame (hfits.trans_lt hmax) [], List.append_nil, ← hlater]
      simp only [announced, List.take_append_of_le_length hfour]
    exact tryDeframe_waits (hannounced ▸ hfits) (hannounced ▸ hlen)

theorem tryDeframe_exact : Framing.Exact tryDeframe framed Fits where
  whole {m} hfits later := by
    rw [framed, tryDeframe_frame hfits, Utf8.fromUtf8_bytes]
  torn hfits htorn := tryDeframe_torn hfits htorn
  idle := tryDeframe_short (by decide)

/-- Bytes that announce too much, or a whole frame that holds no text. -/
inductive Malformed : List UInt8 → Prop where
  | large {bs : List UInt8} (hlen : bs.length = 4) (hlarge : ipcMaxFrame < announced bs) :
      Malformed bs
  | notText {payload : List UInt8} (hfits : payload.length ≤ ipcMaxFrame)
      (htext : Utf8.decode payload = none) : Malformed (frame payload)

theorem torn_of_dropLast {bs front : List UInt8} (hne : bs ≠ []) (hfront : front <+: bs.dropLast) :
    Framing.Torn bs front := by
  refine ⟨hfront.trans (List.dropLast_prefix bs), fun heq => ?_⟩
  have hle := hfront.length_le
  have hpos := List.length_pos_of_ne_nil hne
  rw [heq, List.length_dropLast] at hle
  omega

theorem Malformed.refused {bad : List UInt8} (hbad : Malformed bad) :
    ∃ e, Framing.Refused tryDeframe bad e := by
  cases hbad with
  | large hlen hlarge =>
      refine ⟨tooLarge (announced bad), fun later => ?_, fun front hfront => ?_⟩
      · have hannounced : announced (bad ++ later) = announced bad := by
          simp only [announced, List.take_append_of_le_length (Nat.le_of_eq hlen.symm)]
        rw [← hannounced]
        refine tryDeframe_large ?_ (hannounced ▸ hlarge)
        rw [List.length_append]
        omega
      · have hle := hfront.length_le
        rw [List.length_dropLast] at hle
        exact tryDeframe_short (by omega)
  | @notText payload hfits htext =>
      refine ⟨s!"frame is not UTF-8: {Utf8.faultUpTo payload.length 0 payload}",
        fun later => ?_, fun front hfront => ?_⟩
      · rw [tryDeframe_frame hfits, Utf8.fromUtf8, htext]
      · refine tryDeframe_torn hfits (torn_of_dropLast ?_ hfront)
        exact List.ne_nil_of_length_pos (by rw [length_frame]; omega)

/-- However the frames of some messages are cut into chunks: after every chunk the messages
whose frames have arrived have been taken, in order, and the buffer holds exactly the bytes
behind them, which are no whole frame; at the end all messages have been taken and nothing
is left; behind the messages, malformed bytes are an error and no message. Whatever bytes a
message is taken off, they are its frame. -/
theorem tryDeframe_stream (payloads : List String) (hfits : ∀ p ∈ payloads, Fits p)
    (chunks : List (List UInt8)) :
    (chunks.flatten <+: payloads.flatMap framed →
      ∃ read rest buffer, payloads = read ++ rest ∧
        Framing.receive tryDeframe chunks = ⟨read, buffer, none⟩ ∧
        chunks.flatten = read.flatMap framed ++ buffer ∧
        Framing.Pending framed rest [] buffer) ∧
    (chunks.flatten = payloads.flatMap framed →
      Framing.receive tryDeframe chunks = ⟨payloads, [], none⟩) ∧
    (∀ bad, Malformed bad → payloads.flatMap framed ++ bad <+: chunks.flatten →
      (Framing.receive tryDeframe chunks).taken = payloads ∧
        (Framing.receive tryDeframe chunks).fault.isSome) ∧
    (∀ buf text used, tryDeframe buf = .ok (some (text, used)) →
      used ≤ buf.length ∧ buf.take used = framed text ∧ Fits text) := by
  refine ⟨fun harrived => ?_, fun harrived => ?_, fun bad hbad harrived => ?_,
    fun buf text used hread => frame_of_tryDeframe hread⟩
  · refine tryDeframe_exact.receive_front hfits ?_ (by rwa [List.append_nil])
    intro front hfront
    rw [List.prefix_nil.mp hfront, tryDeframe_exact.idle]
  · exact tryDeframe_exact.receive_all hfits harrived
  · obtain ⟨e, hrefused⟩ := hbad.refused
    obtain ⟨htaken, hfault⟩ := tryDeframe_exact.receive_refused hfits hrefused harrived
    exact ⟨htaken, by rw [hfault]; rfl⟩

/-- Two messages of which the second has a character of two bytes, cut inside the first
length and inside that character. -/
theorem tryDeframe_stream_sample :
    (∀ p ∈ ["a", "é"], Fits p) ∧
      Framing.receive tryDeframe [[1, 0], [0, 0, 97, 2, 0, 0, 0, 0xC3], [0xA9]] =
        ⟨["a", "é"], [], none⟩ :=
  have hfits : ∀ p ∈ ["a", "é"], Fits p := by simp [Fits, Utf8.bytes, ipcMaxFrame]; decide +kernel
  ⟨hfits, (tryDeframe_stream _ hfits _).2.1 (by decide +kernel)⟩

end PowerForensics.Ipc

/-! ## Versions on the pipe

A request is taken only with the supported version. A response carries the version as well, but
whoever decodes it does not look: it is taken for a success by its outcome alone.
-/

namespace PowerForensics.Ipc

open Json

/-- The message is an object with the supported number in its version field. -/
def Supported (text : String) : Prop :=
  ∃ fields, parse text = .ok (.obj fields) ∧
    (JVal.obj fields).get "v" = some (.num (.ofNat ipcVersion))

/-- The message says of itself that it is a success. -/
def ClaimsOk (text : String) : Prop :=
  ∃ v, parse text = .ok v ∧ v.get "ok" = some (.bool true)

theorem supported_of_numAt {text : String} {v : JVal} (hparse : parse text = .ok v)
    (hv : v.numAt "v" = some (.ofNat ipcVersion)) : Supported text := by
  obtain ⟨field, hfield, hnum⟩ := Option.bind_eq_some_iff.mp hv
  cases v with
  | obj fields =>
      cases field with
      | num n =>
          obtain rfl := Option.some.inj hnum
          exact ⟨fields, hparse, hfield⟩
      | _ => cases hnum
  | _ => cases hfield

/-! ## Requests -/

/-- What is taken as a request. -/
theorem decodeRequest_eq_ok {text cmd : String} {arg : Option String}
    (hdecode : decodeRequest text = .ok (cmd, arg)) :
    ∃ v, parse text = .ok v ∧ v.numAt "v" = some (.ofNat ipcVersion) ∧
      v.strAt "cmd" = some cmd ∧ isValidVerb cmd = true ∧ arg = canonicalArg (v.get "arg") := by
  unfold decodeRequest at hdecode
  cases hparse : parse text with
  | error e =>
      rw [hparse] at hdecode
      cases hdecode
  | ok v =>
      rw [hparse] at hdecode
      dsimp only at hdecode
      cases hnum : v.numAt "v" with
      | none =>
          rw [hnum] at hdecode
          cases hdecode
      | some ver =>
          rw [hnum] at hdecode
          dsimp only at hdecode
          split at hdecode
          · cases hdecode
          next hver =>
            cases hcmd : v.strAt "cmd" with
            | none =>
                rw [hcmd] at hdecode
                cases hdecode
            | some verb =>
                rw [hcmd] at hdecode
                dsimp only at hdecode
                split at hdecode
                next hvalid =>
                  cases hdecode
                  exact ⟨v, rfl, hnum.trans (congrArg some (not_not.mp hver)), hcmd, hvalid, rfl⟩
                · cases hdecode

theorem supported_of_decodeRequest {text : String} {request : String × Option String}
    (hdecode : decodeRequest text = .ok request) : Supported text := by
  obtain ⟨v, hparse, hversion, -⟩ := decodeRequest_eq_ok hdecode
  exact supported_of_numAt hparse hversion

/-! ## Responses -/

/-- A response is taken exactly if it says that it is a success. -/
theorem exists_decodeResponse_iff (text : String) :
    (∃ data, decodeResponse text = .ok data) ↔ ClaimsOk text := by
  unfold decodeResponse ClaimsOk
  cases parse text with
  | error e => simp
  | ok v =>
      cases hok : v.get "ok" with
      | none => simp [hok]
      | some field =>
          cases field with
          | bool ok =>
              cases ok with
              | true =>
                  simp only [Option.bind_some, JVal.asBool, Except.ok.injEq, exists_eq_left', hok,
                    iff_true]
                  split <;> exact ⟨_, rfl⟩
              | false => simp [hok, JVal.asBool]
          | _ => simp [hok, JVal.asBool]

/-- Versions are checked in both directions exactly on messages that are supported or do not say
that they are a success. -/
theorem versions_checked_iff (text : String) :
    ((∀ request, decodeRequest text = .ok request → Supported text) ∧
        ∀ data, decodeResponse text = .ok data → Supported text) ↔
      (ClaimsOk text → Supported text) := by
  constructor
  · rintro ⟨-, hresponses⟩ hclaims
    obtain ⟨data, hdata⟩ := (exists_decodeResponse_iff text).mpr hclaims
    exact hresponses data hdata
  · intro hsupported
    exact ⟨fun _ => supported_of_decodeRequest,
      fun data hdata => hsupported ((exists_decodeResponse_iff text).mp ⟨data, hdata⟩)⟩

/-- A success of a version that there is not. -/
def versionTwo : String := "\x7b\"ok\":true,\"v\":2,\"data\":null\x7d"

theorem parse_versionTwo : parse versionTwo =
    .ok (.obj [("ok", .bool true), ("v", .num (.ofNat 2)), ("data", .null)]) := by
  have htext : versionTwo = String.ofList (objectText [("ok", "true".toList),
      ("v", Nat.toDigits 10 2), ("data", "null".toList)]) := by decide
  rw [htext]
  apply parse_of_takes
  rw [String.toList_ofList]
  refine takes_objectText [("ok", "true".toList, .bool true),
    ("v", Nat.toDigits 10 2, .num (.ofNat 2)), ("data", "null".toList, .null)] ?_
  simp only [List.forall_mem_cons, List.not_mem_nil, false_imp_iff, implies_true, and_true]
  exact ⟨takes_true, takes_digits _, takes_null⟩

theorem decodeResponse_versionTwo :
    decodeResponse versionTwo = .ok "null" ∧ ¬ Supported versionTwo := by
  constructor
  · simp only [decodeResponse, parse_versionTwo, get_obj_cons, String.reduceEq, if_true, if_false,
      Option.bind_some, JVal.asBool]
  · rintro ⟨fields, hfields, hversion⟩
    rw [parse_versionTwo] at hfields
    cases hfields
    simp only [get_obj_cons, String.reduceEq, if_true, if_false, Option.some.injEq,
      JVal.num.injEq] at hversion
    revert hversion
    decide +kernel

end PowerForensics.Ipc
