import PowerForensics.Core.Ipc

/-! # The agent service

Clones of a service share its cells: the lifecycle state and the marker queue behind
locks, and the pause and stop flags that the writer loop reads without one. The methods
are given by the sections they hold a lock for and by the stores they make outside.
-/

namespace PowerForensics.Agent

open Json Ipc

/-- The wall clock of a marker and its text. -/
abbrev Marker := UInt64 × String

/-- The most markers that are kept for status requests. -/
def markerRecentCap : Nat := 64

/-- The most markers that wait for the writer. -/
def markerPendingCap : Nat := 1024

structure AgentState where
  running : Bool
  paused : Bool
  label : String
  startedWallMs : UInt64
  /-- The latest markers. -/
  markers : List Marker
  markersTotal : Nat
  markersDropped : Nat
  deriving DecidableEq

instance : Inhabited AgentState := ⟨⟨false, false, "", 0, [], 0, 0⟩⟩

/-- The values that are served over the pipe. -/
structure StateSnapshot where
  watts : Option Binary64
  chargeW : Option Binary64
  pct : Option Binary64
  remainingWh : Option Binary64
  recent : List (Option Binary64)
  events : Nat
  label : String
  deriving DecidableEq

instance : Inhabited StateSnapshot := ⟨⟨none, none, none, none, [], 0, ""⟩⟩

/-- The cells that the clones of a service share. -/
structure Service where
  state : AgentState
  snapshot : StateSnapshot
  pause : Bool
  stop : Bool
  /-- The markers that wait for the writer. -/
  markers : List Marker
  sessionPath : Option String
  sessionsDir : String
  deriving DecidableEq

namespace Service

def new (sessionsDir : String) : Service :=
  ⟨default, default, false, false, [], none, sessionsDir⟩

/-! ## Lifecycle -/

/-- The section of `start`; the clock was read inside it. -/
def startSection (svc : Service) (label : String) (now : UInt64) : Service :=
  { svc with
    state :=
      { running := true, paused := false, label, startedWallMs := now, markers := []
        markersTotal := 0, markersDropped := 0 }
    sessionPath := none
    pause := false
    stop := false }

/-- The section of `pause`, which sets the flag before the lock is released. -/
def pauseSection (svc : Service) : Service :=
  if svc.state.running then
    { svc with state := { svc.state with paused := true }, pause := true }
  else svc

/-- The section of `resume`, which is over before the flag is cleared. -/
def resumeSection (svc : Service) : Service :=
  { svc with state := { svc.state with paused := false } }

/-- The store that `resume` makes outside the lock. -/
def storeResumed (svc : Service) : Service := { svc with pause := false }

def resume (svc : Service) : Service := svc.resumeSection.storeResumed

/-- The section of `stop`. -/
def stopSection (svc : Service) : Service :=
  { svc with
    state := { svc.state with running := false, paused := false }
    pause := false
    stop := true }

/-! ## Markers -/

/-- The section of `add_marker` that holds the queue. The oldest marker makes room. -/
def enqueue (svc : Service) (marker : Marker) : Service :=
  if markerPendingCap ≤ svc.markers.length then
    { svc with
      state := { svc.state with markersDropped := svc.state.markersDropped + 1 }
      markers := svc.markers.tail ++ [marker] }
  else { svc with markers := svc.markers ++ [marker] }

/-- The section of `add_marker` that counts the marker. -/
def count (svc : Service) (marker : Marker) : Service :=
  let recent :=
    if markerRecentCap ≤ svc.state.markers.length then svc.state.markers.tail
    else svc.state.markers
  { svc with
    state :=
      { svc.state with
        markersTotal := svc.state.markersTotal + 1
        markers := recent ++ [marker] } }

def addMarker (svc : Service) (text : String) (wall : UInt64) : Service :=
  (svc.enqueue (wall, text)).count (wall, text)

end Service

/-! ## Requests -/

/-- The text of an argument: a JSON string is unwrapped, other text is taken as it is. -/
def decodeArgText (arg : Option String) : Option String :=
  match arg with
  | none => none
  | some raw =>
      let t := String.ofList (Lines.trim raw.toList)
      if t = "" ∨ t = "null" then none
      else
        match parse t with
        | .ok v => some (v.asStr.getD t)
        | .error _ => some t

/-- A verb without an argument refuses one. -/
def noArg (arg : Option String) : Except String Unit :=
  match decodeArgText arg with
  | none => .ok ()
  | some a => .error s!"verb takes no ARG (got \"{String.ofList (escapeJson a)}\")"

def boolText (b : Bool) : List Char := (if b then "true" else "false").toList

def numJson : Option Binary64 → List Char
  | some v => v.fixed 3
  | none => "null".toList

def listText (items : List (List Char)) : List Char := '[' :: (commaJoin items ++ [']'])

def snapshotJson (s : StateSnapshot) : String :=
  String.ofList (objectText
    [("label", quoted s.label), ("watts", numJson s.watts), ("charge_w", numJson s.chargeW),
      ("battery_pct", numJson s.pct), ("remaining_wh", numJson s.remainingWh),
      ("events", Nat.toDigits 10 s.events), ("recent_watts", listText (s.recent.map numJson))])

/-- What a request sees of its surroundings: the clock, and the names in the directory of the
sessions or the error of listing it. -/
structure Surroundings where
  now : UInt64
  listing : Except String (List String)

namespace Service

def statusJson (svc : Service) (now : UInt64) : String :=
  let s := svc.state
  let uptime := if s.running then now.toNat - s.startedWallMs.toNat else 0
  String.ofList (objectText
    [("running", boolText s.running), ("paused", boolText s.paused), ("label", quoted s.label),
      ("uptime_ms", Nat.toDigits 10 uptime),
      ("started_wall_ms", Nat.toDigits 10 s.startedWallMs.toNat),
      ("session_path", (svc.sessionPath.map quoted).getD "null".toList),
      ("markers_accepted", Nat.toDigits 10 s.markersTotal),
      ("markers_dropped", Nat.toDigits 10 s.markersDropped)])

/-- Whether the extension of a file name is the one of sessions. -/
def isSessionName (name : String) : Bool :=
  let stem := name.toList.take (name.toList.length - ".jsonl".toList.length)
  stem ≠ [] ∧ name.toList = stem ++ ".jsonl".toList

def sessionListJson (svc : Service) (listing : Except String (List String)) : String :=
  match listing with
  | .ok entries =>
      let names := (entries.filter isSessionName).mergeSort
      String.ofList (objectText
        [("sessions", listText (names.map quoted)), ("count", Nat.toDigits 10 names.length),
          ("note", quoted "live sessions dir listing")])
  | .error e =>
      -- the source leaves a blank before the closing brace
      String.ofList (objectText
        [("sessions", listText []), ("count", ['0']),
          ("note", quoted s!"cannot list {svc.sessionsDir}: {e}" ++ [' '])])

/-- The dispatch on the verb. A verb that changes the service returns its new state. -/
def handle (svc : Service) (env : Surroundings) (cmd : String) (arg : Option String) :
    Except String String × Service :=
  let plain (answer : Except String String × Service) : Except String String × Service :=
    match noArg arg with
    | .ok () => answer
    | .error e => (.error e, svc)
  if cmd = "status" then plain (.ok (svc.statusJson env.now), svc)
  else if cmd = "stop" then
    plain (.ok "\x7b\"running\":false,\"note\":\"agent stopped\"\x7d", svc.stopSection)
  else if cmd = "pause" then
    let svc' := svc.pauseSection
    plain (.ok (String.ofList (objectText
      [("paused", boolText svc'.state.paused), ("note", quoted "pause requested")])), svc')
  else if cmd = "resume" then
    plain (.ok "\x7b\"paused\":false,\"note\":\"agent resumed\"\x7d", svc.resume)
  else if cmd = "marker" then
    match decodeArgText arg with
    | none => (.error "marker needs a text ARG", svc)
    | some text =>
        let svc' := svc.addMarker text env.now
        (.ok (String.ofList (objectText
          [("markers_accepted", Nat.toDigits 10 svc'.state.markersTotal),
            ("note", quoted "marker queued for session"), ("text", quoted text)])), svc')
  else if cmd = "snapshot" then plain (.ok (snapshotJson svc.snapshot), svc)
  else if cmd = "recent_timeline" then
    plain (.ok (String.ofList (objectText
      [("label", quoted svc.snapshot.label),
        ("recent_watts", listText (svc.snapshot.recent.map numJson)),
        ("events", Nat.toDigits 10 svc.snapshot.events)])), svc)
  else if cmd = "events" then
    plain (.ok (String.ofList (objectText
      [("events", Nat.toDigits 10 svc.snapshot.events),
        ("note", quoted "live count only; details live in sessions")])), svc)
  else if cmd = "session_list" then plain (.ok (svc.sessionListJson env.listing), svc)
  else (.error s!"unknown verb: {cmd}", svc)

/-- A framed request decoded and answered. -/
def respond (svc : Service) (env : Surroundings) (req : String) : String × Service :=
  match decodeRequest req with
  | .error e => (encodeResponseErr e, svc)
  | .ok (cmd, arg) =>
      match svc.handle env cmd arg with
      | (.ok data, svc') => (encodeResponseOk data, svc')
      | (.error e, svc') => (encodeResponseErr e, svc')

end Service

end PowerForensics.Agent
