import PowerForensics.Core.SessionFaults

/-! # What a record leaves alone

A record of a collector goes into its own series, an event into the events, and every
record may set the first wall clock. No record looks at the events or, except to set
it, at that clock; lines that are loaded behind another event give the same series.
-/

namespace PowerForensics.Session

open Json

/-- The session with another first wall clock and other events. -/
def SessionData.withEvents (s : SessionData) (wall : UInt64) (events : List EventRec) :
    SessionData :=
  { s with wallBaseMs := wall, events }

@[simp] theorem withEvents_self (s : SessionData) :
    s.withEvents s.wallBaseMs s.events = s := rfl

@[simp] theorem withEvents_withEvents (s : SessionData) (w w' : UInt64) (es es' : List EventRec) :
    (s.withEvents w es).withEvents w' es' = s.withEvents w' es' := rfl

@[simp] theorem events_withEvents (s : SessionData) (w : UInt64) (es : List EventRec) :
    (s.withEvents w es).events = es := rfl

@[simp] theorem wallBaseMs_withEvents (s : SessionData) (w : UInt64) (es : List EventRec) :
    (s.withEvents w es).wallBaseMs = w := rfl

/-! ## Records -/

section Records

variable (v : JVal) (s : SessionData) (w : UInt64) (es : List EventRec)

/-- A loader of a collector carries the first wall clock and the events over. -/
theorem collectorLoader_withEvents (stamp : ClockStamp) {collector : String}
    {load : JVal → ClockStamp → SessionData → Except Fault SessionData}
    (hload : collectorLoader collector = some load) :
    load v stamp (s.withEvents w es) = (·.withEvents w es) <$> load v stamp s := by
  cases hload using collectorLoader_cases with
  | battery => simp [loadBattery, map_bind, SessionData.withEvents]
  | cpu => simp [loadCpu, map_bind, SessionData.withEvents]
  | gpu => simp [loadGpu, SessionData.withEvents]
  | procs => simp [loadProcs, SessionData.withEvents]
  | display => simp [loadDisplay, SessionData.withEvents]
  | net => simp [loadNet, map_bind, SessionData.withEvents]
  | storage => simp [loadStorage, map_bind, SessionData.withEvents]
  | usb => simp [loadUsb, SessionData.withEvents]
  | selfmon => simp [loadSelfmon, map_bind, SessionData.withEvents]
  | policy => simp [loadPolicy, addPolicy, map_bind, SessionData.withEvents]

/-- The first wall clock behind a record. -/
def firstWall (wall : UInt64) (v : JVal) : UInt64 := if wall = 0 then wallMs v else wall

/-- The event that a record is, if it is one. -/
def eventsOf (v : JVal) : List EventRec :=
  match (v.strAt "collector").bind collectorLoader with
  | some _ => []
  | none => if v.strAt "type" = some "event" then [loadEvent v (stampOf v)] else []

/-- A record does with other events what it does with these. -/
theorem loadRecord_withEvents :
    loadRecord v (s.withEvents w es) =
      (·.withEvents (firstWall w v) (es ++ eventsOf v)) <$> loadRecord v s := by
  have hwall : ∀ r : SessionData,
      (if r.wallBaseMs = 0 then { r with wallBaseMs := wallMs v } else r) =
        r.withEvents (firstWall r.wallBaseMs v) r.events := by
    intro r
    unfold firstWall
    split
    next hzero => rfl
    next hzero => rfl
  unfold loadRecord eventsOf
  rw [hwall (s.withEvents w es), hwall s]
  simp only [withEvents_withEvents, events_withEvents, wallBaseMs_withEvents]
  cases hload : (v.strAt "collector").bind collectorLoader with
  | some load =>
      obtain ⟨collector, -, hcollector⟩ := Option.bind_eq_some_iff.mp hload
      simp only [collectorLoader_withEvents v s _ _ (stampOf v) hcollector, List.append_nil,
        Functor.map_map, withEvents_withEvents]
  | none =>
      dsimp only
      split
      · rfl
      · split <;> simp [SessionData.withEvents, Functor.map, Except.map]

end Records

/-! ## Lines -/

theorem loadLines_append (number : Nat) (ls ms : List (List Char)) (s : SessionData) :
    loadLines number (ls ++ ms) s =
      (loadLines number ls s).bind (loadLines (number + ls.length) ms) := by
  induction ls generalizing number s with
  | nil => rfl
  | cons line ls ih =>
      have hnumber : number + (ls.length + 1) = number + 1 + ls.length := by omega
      rw [List.cons_append, loadLines, loadLines, List.length_cons, hnumber]
      split
      · exact ih (number + 1) s
      · split
        · rfl
        · split
          · rfl
          · exact ih (number + 1) _

/-- Lines that are loaded behind other events add the same events and give the same series. -/
theorem loadLines_withEvents {number : Nat} (number' : Nat) {ls : List (List Char)}
    {s r : SessionData} (w : UInt64) (es : List EventRec)
    (hload : loadLines number ls s = .ok r) :
    ∃ wall added, r.events = s.events ++ added ∧
      loadLines number' ls (s.withEvents w es) = .ok (r.withEvents wall (es ++ added)) := by
  induction ls generalizing number number' s w es with
  | nil =>
      obtain rfl := Except.ok.inj hload
      exact ⟨w, [], by simp, by simp [loadLines]⟩
  | cons line ls ih =>
      rw [loadLines] at hload ⊢
      by_cases hblank : Lines.trim line = []
      · rw [if_pos hblank] at hload ⊢
        exact ih _ w es hload
      · rw [if_neg hblank] at hload ⊢
        cases hparse : parse (String.ofList (Lines.trim line)) with
        | error e =>
            rw [hparse] at hload
            cases hload
        | ok v =>
            rw [hparse] at hload
            dsimp only at hload ⊢
            rw [loadRecord_withEvents]
            cases hrecord : loadRecord v s with
            | error fault =>
                rw [hrecord] at hload
                cases hload
            | ok s' =>
                rw [hrecord] at hload
                -- the events that the record itself adds
                have hself := loadRecord_withEvents v s s.wallBaseMs s.events
                rw [withEvents_self, hrecord] at hself
                have hevents : s'.events = s.events ++ eventsOf v :=
                  congrArg SessionData.events (Except.ok.inj hself)
                obtain ⟨wall, added, hadded, hlines⟩ :=
                  ih (number' + 1) (firstWall w v) (es ++ eventsOf v) hload
                refine ⟨wall, eventsOf v ++ added, ?_, ?_⟩
                · rw [hadded, hevents, List.append_assoc]
                · rw [← List.append_assoc]
                  exact hlines

end PowerForensics.Session
