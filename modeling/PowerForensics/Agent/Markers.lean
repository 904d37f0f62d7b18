import PowerForensics.Agent.Service
import PowerForensics.System.Runs

/-! # Markers over lifecycles

A marker is queued and then counted, by two sections of one call; the writer takes the
whole queue and writes an event for each marker. A lifecycle begins with a start and
ends when its writer returns, after a final drain or, when it gives up, without one.
The ledger says where the markers of the current lifecycle are.
-/

namespace PowerForensics.Agent

open Runs Session

/-! ## The writer's side -/

/-- The difference, or zero. -/
def saturatingSub (a b : UInt64) : UInt64 := if b ≤ a then a - b else 0

/-- The event of a marker; its monotonic stamp is as far back as its wall clock is. -/
def markerEvent (stamp : ClockStamp) (marker : Marker) : EventRec where
  wallMs := marker.1
  monoMs := saturatingSub stamp.monoMillis (saturatingSub stamp.wallMillis marker.1)
  kind := "marker"
  detail := marker.2

/-- The marker that an event was written for. -/
def markerOf (e : EventRec) : Marker := (e.wallMs, e.detail)

/-- The events of the queued markers, and the service with its queue taken. -/
def drainMarkers (stamp : ClockStamp) (svc : Service) : List EventRec × Service :=
  (svc.markers.map (markerEvent stamp), { svc with markers := [] })

theorem markerOf_markerEvent (stamp : ClockStamp) (marker : Marker) :
    markerOf (markerEvent stamp marker) = marker := rfl

/-! ## Lifecycles -/

inductive WriterPhase where
  /-- No lifecycle has begun. -/
  | absent
  /-- The lifecycle has begun, and its session file is about to be created. -/
  | opening
  | recording
  /-- Out of the loop, before the final drain. -/
  | finalizing
  | ended
  deriving DecidableEq

/-- Whether the writer's final drain is still to come. -/
def WriterPhase.drains : WriterPhase → Bool
  | opening | recording | finalizing => true
  | absent | ended => false

structure Lifecycles where
  svc : Service
  writer : WriterPhase
  /-- Calls of `add_marker` that have queued their marker and not counted it. -/
  calls : List Marker
  /-- The marker events in the session file of the current lifecycle. -/
  written : List EventRec
  /-- The markers that were queued since the last start, in this order. -/
  accepted : List Marker
  deriving DecidableEq

def Lifecycles.new (sessionsDir : String) : Lifecycles :=
  ⟨Service.new sessionsDir, .absent, [], [], []⟩

inductive LifecycleAction where
  | start (label : String) (now : UInt64)
  /-- The session file is created and its header written. -/
  | openFile
  | enqueue (marker : Marker)
  | count (marker : Marker)
  | pause
  | resume
  | storeResumed
  | stop
  /-- A drain in the loop; which event lines get into the file is up to the disk. -/
  | drain (stamp : ClockStamp) (kept : List Bool)
  | leave
  /-- The final drain, the footer and the return. -/
  | finalize (stamp : ClockStamp) (kept : List Bool)
  /-- The file cannot be created, or a sample cannot be written: the writer returns. -/
  | fail
  deriving DecidableEq

/-- The events whose lines got into the file. -/
def keptEvents (events : List EventRec) (kept : List Bool) : List EventRec :=
  ((events.zip kept).filter Prod.snd).map Prod.fst

/-- The queue is taken and written. A write error is ignored. -/
def Lifecycles.drainInto (s : Lifecycles) (stamp : ClockStamp) (kept : List Bool) : Lifecycles :=
  let (events, svc) := drainMarkers stamp s.svc
  { s with svc, written := s.written ++ keptEvents events kept }

def lifecycleStep (s : Lifecycles) (a : LifecycleAction) : Option Lifecycles :=
  match a with
  | .start label now =>
      if s.writer = .absent ∨ s.writer = .ended then
        some { s with svc := s.svc.startSection label now, writer := .opening, written := []
                      accepted := [] }
      else none
  | .openFile => if s.writer = .opening then some { s with writer := .recording } else none
  | .enqueue marker =>
      some { s with svc := s.svc.enqueue marker, calls := s.calls ++ [marker]
                    accepted := s.accepted ++ [marker] }
  | .count marker =>
      if marker ∈ s.calls then
        some { s with svc := s.svc.count marker, calls := s.calls.erase marker }
      else none
  | .pause => some { s with svc := s.svc.pauseSection }
  | .resume => some { s with svc := s.svc.resumeSection }
  | .storeResumed => some { s with svc := s.svc.storeResumed }
  | .stop => some { s with svc := s.svc.stopSection }
  | .drain stamp kept =>
      if s.writer = .recording ∧ kept.length = s.svc.markers.length then
        some (s.drainInto stamp kept)
      else none
  | .leave => if s.writer = .recording then some { s with writer := .finalizing } else none
  | .finalize stamp kept =>
      if s.writer = .finalizing ∧ kept.length = s.svc.markers.length then
        some { s.drainInto stamp kept with writer := .ended }
      else none
  | .fail =>
      if s.writer = .opening ∨ s.writer = .recording then some { s with writer := .ended }
      else none

/-- When a lifecycle has ended and every call has returned: every marker that was accepted in
it is in its file, once and in order, or is counted as dropped, and nothing else is there. -/
def Conserved (s : Lifecycles) : Prop :=
  s.writer = .ended → s.calls = [] →
    s.svc.state.markersTotal = s.written.length + s.svc.state.markersDropped ∧
      (s.written.map markerOf).Sublist s.accepted ∧
      s.accepted.length = s.svc.state.markersTotal

/-- No call straddles a start; markers are queued while a final drain is to come; every event
line gets into the file; the writer gives up only with an empty queue. -/
def Orderly (s : Lifecycles) : LifecycleAction → Prop
  | .start _ _ => s.calls = []
  | .enqueue _ => s.writer.drains = true
  | .drain _ kept | .finalize _ kept => ∀ k ∈ kept, k = true
  | .fail => s.svc.markers = []
  | _ => True

/-! ## The ledger -/

/-- Where the markers of the current lifecycle are. -/
structure Ledger (s : Lifecycles) : Prop where
  order : (s.written.map markerOf ++ s.svc.markers).Sublist s.accepted
  balance : s.accepted.length =
    s.written.length + s.svc.markers.length + s.svc.state.markersDropped
  counted : s.svc.state.markersTotal + s.calls.length = s.accepted.length
  drained : s.writer.drains = false → s.svc.markers = []

theorem ledger_new (sessionsDir : String) : Ledger (Lifecycles.new sessionsDir) where
  order := List.Sublist.refl _
  balance := rfl
  counted := rfl
  drained _ := rfl

section Updates

variable {s : Lifecycles} (hs : Ledger s)

include hs

/-- Pausing, resuming and stopping touch no marker. -/
theorem Ledger.of_flags {svc : Service} (hmarkers : svc.markers = s.svc.markers)
    (htotal : svc.state.markersTotal = s.svc.state.markersTotal)
    (hdropped : svc.state.markersDropped = s.svc.state.markersDropped) :
    Ledger { s with svc } where
  order := by simpa only [hmarkers] using hs.order
  balance := by simpa only [hmarkers, hdropped] using hs.balance
  counted := by simpa only [htotal] using hs.counted
  drained := by simpa only [hmarkers] using hs.drained

theorem Ledger.of_phase {writer : WriterPhase}
    (hwriter : writer.drains = false → s.svc.markers = []) : Ledger { s with writer } where
  order := hs.order
  balance := hs.balance
  counted := hs.counted
  drained := hwriter

/-- A start begins an empty ledger, on an empty queue. -/
theorem Ledger.of_start (hended : s.writer.drains = false) (hcalls : s.calls = [])
    (label : String) (now : UInt64) :
    Ledger { s with svc := s.svc.startSection label now, writer := .opening, written := []
                    accepted := [] } where
  order := by simp [Service.startSection, hs.drained hended]
  balance := by simp [Service.startSection, hs.drained hended]
  counted := by simp [hcalls, Service.startSection]
  drained := nofun

/-- A marker is queued, and the oldest one is dropped for it if the queue is full. -/
theorem Ledger.of_enqueue (hwriter : s.writer.drains = true) (marker : Marker) :
    Ledger { s with svc := s.svc.enqueue marker, calls := s.calls ++ [marker]
                    accepted := s.accepted ++ [marker] } := by
  have horder := hs.order
  have hbalance := hs.balance
  have hcounted := hs.counted
  have hdrains : ∀ P : Prop, s.writer.drains = false → P := by
    intro P hfalse
    rw [hwriter] at hfalse
    cases hfalse
  unfold Service.enqueue
  split
  next hfull =>
    have hpos : 0 < s.svc.markers.length := Nat.lt_of_lt_of_le (by decide) hfull
    refine ⟨?_, ?_, ?_, hdrains _⟩
    · have htail : (s.written.map markerOf ++ s.svc.markers.tail).Sublist s.accepted :=
        (List.Sublist.append_left (List.tail_sublist _) _).trans horder
      simpa only [List.append_assoc] using htail.append (List.Sublist.refl [marker])
    · simp only [List.length_append, List.length_tail, List.length_singleton]
      omega
    · simp only [List.length_append, List.length_singleton]
      omega
  next =>
    refine ⟨?_, ?_, ?_, hdrains _⟩
    · simpa only [List.append_assoc] using horder.append (List.Sublist.refl [marker])
    · simp only [List.length_append, List.length_singleton]
      omega
    · simp only [List.length_append, List.length_singleton]
      omega

/-- A call that returns has counted its marker. -/
theorem Ledger.of_count {marker : Marker} (hmarker : marker ∈ s.calls) :
    Ledger { s with svc := s.svc.count marker, calls := s.calls.erase marker } where
  order := hs.order
  balance := hs.balance
  counted := by
    have hcounted := hs.counted
    have hpos := List.length_pos_of_mem hmarker
    simp only [Service.count, List.length_erase_of_mem hmarker]
    omega
  drained := hs.drained

/-- Every queued marker gets its event into the file. -/
theorem Ledger.of_drain {kept : List Bool} (hkept : ∀ k ∈ kept, k = true)
    (hlen : kept.length = s.svc.markers.length) (stamp : ClockStamp) :
    Ledger (s.drainInto stamp kept) ∧ (s.drainInto stamp kept).svc.markers = [] := by
  have hall : ∀ (events : List EventRec) (kept : List Bool), (∀ k ∈ kept, k = true) →
      kept.length = events.length → keptEvents events kept = events := by
    intro events kept hkept hlen
    have hfilter : (events.zip kept).filter Prod.snd = events.zip kept := by
      rw [List.filter_eq_self]
      rintro ⟨e, k⟩ hmem
      exact hkept k (List.of_mem_zip hmem).2
    rw [keptEvents, hfilter, List.map_fst_zip (by omega)]
  have hevents := hall (s.svc.markers.map (markerEvent stamp)) kept hkept (by
    rw [hlen, List.length_map])
  have hmarkers : (s.svc.markers.map (markerEvent stamp)).map markerOf = s.svc.markers := by
    rw [List.map_map]
    exact List.map_id'' (markerOf_markerEvent stamp) _
  have horder := hs.order
  have hbalance := hs.balance
  refine ⟨⟨?_, ?_, hs.counted, fun _ => rfl⟩, rfl⟩
  · simp only [Lifecycles.drainInto, drainMarkers, hevents, List.map_append, hmarkers,
      List.append_nil]
    exact horder
  · simp only [Lifecycles.drainInto, drainMarkers, hevents, List.length_append, List.length_map,
      List.length_nil]
    omega

end Updates

theorem lifecycleStep_ledger (s : Lifecycles) (a : LifecycleAction) (t : Lifecycles)
    (hs : Ledger s) (horderly : Orderly s a) (hstep : lifecycleStep s a = some t) : Ledger t := by
  cases a with
  | start label now =>
      obtain ⟨hwriter, rfl⟩ := of_guard hstep
      refine hs.of_start ?_ horderly label now
      rcases hwriter with hwriter | hwriter <;> rw [hwriter] <;> rfl
  | openFile =>
      obtain ⟨-, rfl⟩ := of_guard hstep
      exact hs.of_phase nofun
  | enqueue marker =>
      obtain rfl := Option.some.inj hstep
      exact hs.of_enqueue horderly marker
  | count marker =>
      obtain ⟨hmarker, rfl⟩ := of_guard hstep
      exact hs.of_count hmarker
  | pause =>
      obtain rfl := Option.some.inj hstep
      unfold Service.pauseSection
      split <;> exact hs.of_flags rfl rfl rfl
  | resume =>
      obtain rfl := Option.some.inj hstep
      exact hs.of_flags rfl rfl rfl
  | storeResumed =>
      obtain rfl := Option.some.inj hstep
      exact hs.of_flags rfl rfl rfl
  | stop =>
      obtain rfl := Option.some.inj hstep
      exact hs.of_flags rfl rfl rfl
  | drain stamp kept =>
      obtain ⟨⟨-, hlen⟩, rfl⟩ := of_guard hstep
      exact (hs.of_drain horderly hlen stamp).1
  | leave =>
      obtain ⟨-, rfl⟩ := of_guard hstep
      exact hs.of_phase nofun
  | finalize stamp kept =>
      obtain ⟨⟨-, hlen⟩, rfl⟩ := of_guard hstep
      obtain ⟨hledger, hempty⟩ := hs.of_drain horderly hlen stamp
      exact hledger.of_phase fun _ => hempty
  | fail =>
      obtain ⟨-, rfl⟩ := of_guard hstep
      exact hs.of_phase fun _ => horderly

theorem Ledger.conserved {s : Lifecycles} (hs : Ledger s) : Conserved s := by
  intro hended hcalls
  have hempty : s.svc.markers = [] := hs.drained (by rw [hended]; rfl)
  have horder := hs.order
  have hbalance := hs.balance
  have hcounted := hs.counted
  rw [hempty, List.append_nil] at horder
  rw [hempty, List.length_nil] at hbalance
  rw [hcalls, List.length_nil] at hcounted
  exact ⟨by omega, horder, by omega⟩

/-- In every run whose steps are orderly, markers are conserved at the end of every
lifecycle. -/
theorem markers_conserved (sessionsDir : String) (actions : List LifecycleAction)
    (s : Lifecycles) (hrun : run lifecycleStep (Lifecycles.new sessionsDir) actions = some s)
    (horderly : Meets lifecycleStep Orderly (Lifecycles.new sessionsDir) actions) :
    Conserved s :=
  (invariant_of_meets lifecycleStep_ledger (ledger_new sessionsDir) horderly hrun).conserved

/-- A lifecycle whose marker the final drain writes, and one with a marker that is drained while
the writer runs and another that is not. -/
def twoLifecycles : List LifecycleAction :=
  [.start "first" 5, .openFile, .enqueue (7, "lunch"), .count (7, "lunch"), .stop, .leave,
    .finalize ⟨9, 4⟩ [true], .start "second" 20, .openFile, .enqueue (21, "idle"),
    .drain ⟨22, 2⟩ [true], .enqueue (23, "done"), .count (21, "idle"), .count (23, "done"), .stop,
    .leave, .finalize ⟨25, 5⟩ [true]]

theorem markers_conserved_sample : ∃ s,
    run lifecycleStep (Lifecycles.new "sessions") twoLifecycles = some s ∧ s.writer = .ended ∧
      s.svc.state.markersTotal = 2 ∧ s.written.map markerOf = [(21, "idle"), (23, "done")] ∧
        Conserved s := by
  refine ⟨_, rfl, rfl, rfl, rfl, markers_conserved "sessions" twoLifecycles _ rfl ?_⟩
  simp [twoLifecycles, Meets, Orderly, lifecycleStep, Lifecycles.new, WriterPhase.drains,
    Lifecycles.drainInto]

/-- A marker that is acknowledged after the final drain is written into the session of the
next lifecycle, which has accepted none. -/
theorem marker_outlives_lifecycle : ¬ ∀ (actions : List LifecycleAction) (s : Lifecycles),
    run lifecycleStep (Lifecycles.new "sessions") actions = some s → Conserved s := by
  intro hall
  have hrun := hall [.start "first" 5, .openFile, .stop, .leave, .finalize ⟨9, 4⟩ [],
    .enqueue (10, "late"), .count (10, "late"), .start "second" 20, .openFile, .stop, .leave,
    .finalize ⟨21, 1⟩ [true]] _ rfl rfl rfl
  exact absurd hrun.1 (by decide)

end PowerForensics.Agent
