import PowerForensics.Agent.Markers
import PowerForensics.Core.SessionFrame

/-! # The text of a marker

The text of a marker is quoted by the client, framed, printed again in canonical form,
unwrapped by the service, quoted once more by the session writer and read back by the
session loader. Behind all of this it is the same text, in one event of its own.
-/

namespace PowerForensics.Agent

open Json Session

/-! ## From the client to the queue -/

/-- The request that the command line makes for a marker. -/
def markerRequest (text : String) : String :=
  Ipc.encodeRequest "marker" (some (String.ofList (quoted text)))

theorem trim_quoted (s : String) : Lines.trim (quoted s) = quoted s := by
  apply Lines.trim_eq_self
  · intro c hc
    obtain rfl : '"' = c := by simpa [quoted] using hc
    rfl
  · intro c hc
    rw [quoted, ← List.cons_append, List.getLast?_concat, Option.some.injEq] at hc
    subst hc
    rfl

/-- A string in canonical form is unwrapped. -/
theorem decodeArgText_str (t : String) : decodeArgText (some (toJson (.str t))) = some t := by
  have htext : toJson (.str t) = String.ofList (quoted t) := by
    rw [quoted_eq, String.ofList_toList, toJson]
  have hparse : parse (String.ofList (quoted t)) = .ok (.str t) := by
    apply parse_of_takes
    rw [String.toList_ofList]
    exact takes_quoted t
  -- a text between quotes is neither empty nor the word null
  have hhead : ∀ s : String, s.toList.head? ≠ some '"' → String.ofList (quoted t) ≠ s := by
    intro s hs heq
    rw [← heq, String.toList_ofList] at hs
    exact hs rfl
  unfold decodeArgText
  dsimp only
  rw [htext, String.toList_ofList, trim_quoted, hparse]
  rw [if_neg (not_or.mpr ⟨hhead "" (by decide), hhead "null" (by decide)⟩)]
  rfl

/-- The service gets the text of a marker request in canonical form. -/
theorem decodeRequest_markerRequest (t : String) :
    Ipc.decodeRequest (markerRequest t) = .ok ("marker", some (toJson (.str t))) := by
  apply Ipc.decodeRequest_encodeRequest (v := .str t) (by decide)
  rw [String.toList_ofList]
  exact takes_quoted t

/-- A marker request is queued with its text; of the markers before it the oldest may have
made room. -/
theorem respond_markerRequest (svc : Service) (env : Surroundings) (t : String) :
    ∃ queued, queued <:+ svc.markers ∧
      (svc.respond env (markerRequest t)).2.markers = queued ++ [(env.now, t)] := by
  have hhandle : (svc.respond env (markerRequest t)).2 = svc.addMarker t env.now := by
    simp [Service.respond, decodeRequest_markerRequest, Service.handle, decodeArgText_str]
  rw [hhandle, Service.addMarker, Service.count, Service.enqueue]
  split
  · exact ⟨svc.markers.tail, List.tail_suffix _, rfl⟩
  · exact ⟨svc.markers, List.suffix_rfl, rfl⟩

/-! ## From the queue to the session file -/

/-- The line of an event. -/
def eventText (e : EventRec) : List Char :=
  objectText
    [("type", quoted "event"), ("wall_ms", Nat.toDigits 10 e.wallMs.toNat),
      ("mono_ms", Nat.toDigits 10 e.monoMs.toNat), ("kind", quoted e.kind),
      ("detail", quoted e.detail)]

/-- A session writer, by the lines that it has written. -/
structure SessionWriter where
  lines : List (List Char)

namespace SessionWriter

def writeLine (writer : SessionWriter) (line : List Char) : SessionWriter :=
  ⟨writer.lines ++ [line]⟩

def event (writer : SessionWriter) (e : EventRec) : SessionWriter := writer.writeLine (eventText e)

def events (writer : SessionWriter) (es : List EventRec) : SessionWriter :=
  es.foldl event writer

/-- The text of the file. -/
def text (writer : SessionWriter) : List Char := Lines.terminated writer.lines

theorem events_append_singleton (writer : SessionWriter) (es : List EventRec) (e : EventRec) :
    writer.events (es ++ [e]) = (writer.events es).event e := by
  simp [events]

end SessionWriter

/-! ## From the session file to the event -/

/-- The JSON value of an event's line. -/
def eventValue (e : EventRec) : JVal :=
  .obj [("type", .str "event"), ("wall_ms", .num (.ofNat e.wallMs.toNat)),
    ("mono_ms", .num (.ofNat e.monoMs.toNat)), ("kind", .str e.kind), ("detail", .str e.detail)]

/-- An event as the loader reads it: its clocks have been through binary64. -/
def readBack (e : EventRec) : EventRec :=
  { e with
    wallMs := asU64 (ofU64 e.wallMs)
    monoMs := asU64 (seconds e.monoMs * 1000.0) }

theorem parse_eventText (e : EventRec) :
    parse (String.ofList (eventText e)) = .ok (eventValue e) := by
  apply parse_of_takes
  rw [String.toList_ofList]
  refine takes_objectText [("type", quoted "event", .str "event"),
    ("wall_ms", Nat.toDigits 10 e.wallMs.toNat, .num (.ofNat e.wallMs.toNat)),
    ("mono_ms", Nat.toDigits 10 e.monoMs.toNat, .num (.ofNat e.monoMs.toNat)),
    ("kind", quoted e.kind, .str e.kind), ("detail", quoted e.detail, .str e.detail)] ?_
  simp only [List.forall_mem_cons, List.not_mem_nil, false_imp_iff, implies_true, and_true]
  exact ⟨takes_quoted _, takes_digits _, takes_digits _, takes_quoted _, takes_quoted _⟩

theorem newline_not_mem_eventText (e : EventRec) : '\n' ∉ eventText e := by
  apply newline_not_mem_objectText
  have hdigits := fun n : UInt64 => (Binary64.denotes_toDigits n.toNat).newline_not_mem
  simp [newline_not_mem_quoted, hdigits]

theorem trim_eventText (e : EventRec) : Lines.trim (eventText e) = eventText e :=
  trim_objectText _

theorem eventText_ne_nil (e : EventRec) : eventText e ≠ [] := by simp [eventText, objectText]

/-- The line of an event is one line, behind any terminated text. -/
theorem lines_event (writer : SessionWriter) (e : EventRec) (later : List Char) :
    Lines.lines ((writer.event e).text ++ later) =
      Lines.lines writer.text ++ eventText e :: Lines.lines later := by
  have hsplit : (writer.event e).text ++ later =
      Lines.terminated writer.lines ++ (eventText e ++ '\n' :: later) := by
    simp [SessionWriter.event, SessionWriter.writeLine, SessionWriter.text, Lines.terminated]
  have hstrip : Lines.stripCr (eventText e) = eventText e :=
    Lines.stripCr_of_trim (trim_eventText e)
  rw [hsplit, Lines.lines_terminated_append,
    Lines.lines_append_newline (newline_not_mem_eventText e), hstrip, SessionWriter.text]

theorem loadRecord_eventValue (e : EventRec) (s : SessionData) :
    ∃ wall, loadRecord (eventValue e) s =
      .ok (s.withEvents wall (s.events ++ [readBack e])) := by
  have hcollector : (eventValue e).strAt "collector" = none := by
    simp [eventValue, JVal.strAt, get_obj_cons, get_obj_nil]
  have hrecord : (eventValue e).strAt "type" = some "event" := by
    simp [eventValue, JVal.strAt, get_obj_cons, JVal.asStr]
  have hevent : loadEvent (eventValue e) (stampOf (eventValue e)) = readBack e := by
    simp [loadEvent, stampOf, wallMs, monoS, eventValue, JVal.numAt, JVal.strAt, get_obj_cons,
      JVal.asStr, JVal.num?, readBack, seconds, ofU64]
  unfold loadRecord
  simp only [hcollector, hrecord, hevent, Option.bind_none, if_true]
  split
  · exact ⟨_, rfl⟩
  · exact ⟨_, rfl⟩

theorem loadLines_event (number : Nat) (e : EventRec) (rest : List (List Char))
    (s : SessionData) :
    ∃ wall, loadLines number (eventText e :: rest) s =
      loadLines (number + 1) rest (s.withEvents wall (s.events ++ [readBack e])) := by
  obtain ⟨wall, hrecord⟩ := loadRecord_eventValue e s
  refine ⟨wall, ?_⟩
  rw [loadLines, trim_eventText, if_neg (eventText_ne_nil e), parse_eventText]
  dsimp only
  rw [hrecord]

/-- With a longer text at the front a session loads exactly if it does with the shorter one,
and then it has the event in addition, at that place, and is the same session otherwise. -/
def OneMoreEvent (label : String) (shorter longer later : List Char) (e : EventRec) : Prop :=
  (loadSession label (String.ofList (longer ++ later))).isOk =
      (loadSession label (String.ofList (shorter ++ later))).isOk ∧
    ∀ s, loadSession label (String.ofList (shorter ++ later)) = .ok s →
      ∃ front wall added, loadSession label (String.ofList shorter) = .ok front ∧
        s.events = front.events ++ added ∧
        loadSession label (String.ofList (longer ++ later)) =
          .ok (s.withEvents wall (front.events ++ e :: added))

/-- The line of an event adds this event, whatever stands before and behind it. -/
theorem oneMoreEvent_event (label : String) (writer : SessionWriter) (e : EventRec)
    (later : List Char) :
    OneMoreEvent label writer.text (writer.event e).text later (readBack e) := by
  have hshort : Lines.lines (writer.text ++ later) =
      Lines.lines writer.text ++ Lines.lines later := Lines.lines_terminated_append _ _
  have hlong := lines_event writer e later
  refine ⟨?_, fun s hload => ?_⟩
  · have hline : Loadable (eventText e) := by
      intro _
      refine ⟨eventValue e, ?_, ?_⟩
      · rw [trim_eventText, parse_eventText]
      · obtain ⟨wall, hrecord⟩ := loadRecord_eventValue e default
        rw [← loadRecord_isOk (eventValue e) default, hrecord]
        rfl
    rw [Bool.eq_iff_iff, loadSession_isOk, loadSession_isOk, String.toList_ofList,
      String.toList_ofList, hshort, hlong, List.forall_mem_append, List.forall_mem_append,
      List.forall_mem_cons]
    exact and_congr_right' (and_iff_right hline)
  · unfold loadSession at hload ⊢
    rw [String.toList_ofList] at hload ⊢
    rw [hshort, loadLines_append] at hload
    cases hfront : loadLines 1 (Lines.lines writer.text) { (default : SessionData) with label } with
    | error fault =>
        rw [hfront] at hload
        cases hload
    | ok front =>
        rw [hfront, Except.bind] at hload
        obtain ⟨base, hevent⟩ :=
          loadLines_event (1 + (Lines.lines writer.text).length) e (Lines.lines later) front
        obtain ⟨wall, added, hadded, hlater⟩ :=
          loadLines_withEvents (1 + (Lines.lines writer.text).length + 1) base
            (front.events ++ [readBack e]) hload
        refine ⟨front, wall, added, rfl, hadded, ?_⟩
        rw [String.toList_ofList, hlong, loadLines_append, hfront, Except.bind, hevent, hlater,
          List.append_assoc, List.singleton_append]

/-- The text of a marker request that fits into a frame arrives as the detail of one marker
event. The event is drained behind the events of the markers that were queued before; the
session with its line has this event in addition to the session without it, and nothing else
changes, whatever the session file holds before and behind the line. -/
theorem marker_text_unchanged (t : String) (hfits : Ipc.Fits (markerRequest t))
    (arriving : List UInt8) (svc : Service) (env : Surroundings) (stamp : ClockStamp)
    (writer : SessionWriter) (label : String) (later : List Char) :
    ∃ received queued e,
      Ipc.tryDeframe (Ipc.framed (markerRequest t) ++ arriving) =
          .ok (some (received, (Ipc.framed (markerRequest t)).length)) ∧
        queued <:+ svc.markers ∧
        (drainMarkers stamp (svc.respond env received).2).1 =
          queued.map (markerEvent stamp) ++ [e] ∧
        (readBack e).kind = "marker" ∧ (readBack e).detail = t ∧
        OneMoreEvent label (writer.events (queued.map (markerEvent stamp))).text
          (writer.events (queued.map (markerEvent stamp) ++ [e])).text later (readBack e) := by
  have hframe : Ipc.tryDeframe (Ipc.framed (markerRequest t) ++ arriving) =
      .ok (some (markerRequest t, (Ipc.framed (markerRequest t)).length)) :=
    Ipc.tryDeframe_exact.whole hfits arriving
  obtain ⟨queued, hsuffix, hmarkers⟩ := respond_markerRequest svc env t
  refine ⟨markerRequest t, queued, markerEvent stamp (env.now, t), hframe, hsuffix, ?_, rfl, rfl,
    ?_⟩
  · rw [drainMarkers, hmarkers, List.map_append, List.map_singleton]
  · rw [SessionWriter.events_append_singleton]
    exact oneMoreEvent_event label _ _ later

/-- A text with a quote, a line feed and a character of two bytes, into an empty file. -/
theorem marker_text_unchanged_sample :
    Ipc.Fits (markerRequest "\"é\n") ∧
      ∃ e, (readBack e).kind = "marker" ∧ (readBack e).detail = "\"é\n" ∧
        OneMoreEvent "run" [] ((⟨[]⟩ : SessionWriter).event e).text [] (readBack e) := by
  have hfits : Ipc.Fits (markerRequest "\"é\n") := by decide +kernel
  refine ⟨hfits, ?_⟩
  obtain ⟨_, queued, e, -, hqueued, -, hkind, hdetail, hone⟩ :=
    marker_text_unchanged "\"é\n" hfits [] (Service.new "sessions") ⟨5, .ok []⟩ ⟨5, 1⟩ ⟨[]⟩ "run" []
  obtain rfl : queued = [] := List.suffix_nil.mp hqueued
  exact ⟨e, hkind, hdetail, hone⟩

end PowerForensics.Agent
