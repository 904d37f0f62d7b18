import Mathlib.Data.List.Induction
import PowerForensics.Agent.WriterLoop

/-! # Episodes of timeouts

A collector is timed out from the event of a timeout until it recovers, which an arriving message
makes it do. So the two kinds of events take turns for every collector, whatever the clocks of the
passes and of the messages are.
-/

namespace PowerForensics.Monitor

open Runs

/-- Whether an occurrence begins an episode of a collector, or ends one. -/
def episodeOf (c : String) : Occurrence → Option Bool
  | .event _ (.collectorTimeout name ..) => if name = c then some true else none
  | .event _ (.collectorRecovered name) => if name = c then some false else none
  | _ => none

/-- The beginnings and ends of a collector's episodes. -/
def episodes (c : String) (seen : List Occurrence) : List Bool := seen.filterMap (episodeOf c)

/-- Beginnings and ends take turns, a beginning first. -/
def Alternates (marks : List Bool) : Prop := ∀ i mark, marks[i]? = some mark → mark = (i % 2 == 0)

def isTimeout : Occurrence → Bool
  | .event _ (.collectorTimeout ..) => true
  | _ => false

theorem Alternates.concat {marks : List Bool} (h : Alternates marks) :
    Alternates (marks ++ [marks.length % 2 == 0]) := by
  intro i mark hmark
  rcases Nat.lt_trichotomy i marks.length with hlt | rfl | hgt
  · rw [List.getElem?_append_left hlt] at hmark
    exact h i mark hmark
  · rw [List.getElem?_concat_length] at hmark
    exact (Option.some.inj hmark).symm
  · rw [List.getElem?_eq_none (by rw [List.length_append, List.length_singleton]; omega)] at hmark
    cases hmark

/-- What the watch and the trace have to do with one another. -/
structure Watched (w : TimeoutWatch) (seen : List Occurrence) : Prop where
  alternates : ∀ c, Alternates (episodes c seen)
  timedOut : ∀ c, c ∈ w.timedOut ↔ (episodes c seen).length % 2 = 1
  recovered : ∀ i stamp c, seen[i]? = some (.event stamp (.collectorRecovered c)) →
    ∃ j, i = j + 1 ∧ seen[j]? = some (.arrived c)
  counted : w.episodes = seen.countP isTimeout

namespace Watched

variable {w : TimeoutWatch} {seen : List Occurrence}

theorem start : Watched .new [] where
  alternates _ _ _ h := by cases h
  timedOut c := by simp [TimeoutWatch.new, episodes]
  recovered _ _ _ h := by cases h
  counted := rfl

/-- Earlier recoveries stay where they are, and a later one is behind an arrival. -/
theorem recovered_concat (h : Watched w seen) {o : Occurrence}
    (ho : ∀ stamp c, o = .event stamp (.collectorRecovered c) →
      ∃ front, seen = front ++ [.arrived c])
    (i : Nat) (stamp : ClockStamp) (c : String)
    (hi : (seen ++ [o])[i]? = some (.event stamp (.collectorRecovered c))) :
    ∃ j, i = j + 1 ∧ (seen ++ [o])[j]? = some (.arrived c) := by
  rcases Nat.lt_trichotomy i seen.length with hlt | rfl | hgt
  · rw [List.getElem?_append_left hlt] at hi
    obtain ⟨j, rfl, hj⟩ := h.recovered i stamp c hi
    refine ⟨j, rfl, ?_⟩
    rwa [List.getElem?_append_left (by omega)]
  · rw [List.getElem?_concat_length] at hi
    obtain ⟨front, rfl⟩ := ho stamp c (Option.some.inj hi)
    refine ⟨front.length, by simp, ?_⟩
    rw [List.append_assoc, List.getElem?_append_right (le_refl _), Nat.sub_self]
    rfl
  · rw [List.getElem?_eq_none (by rw [List.length_append, List.length_singleton]; omega)] at hi
    cases hi

/-- An occurrence that is of no episode. -/
theorem neutral (h : Watched w seen) {o : Occurrence} (ho : ∀ c, episodeOf c o = none) :
    Watched w (seen ++ [o]) := by
  have hsame : ∀ c, episodes c (seen ++ [o]) = episodes c seen := by
    intro c
    rw [episodes, List.filterMap_append, List.filterMap_cons_none (ho c), List.filterMap_nil,
      List.append_nil, episodes]
  have hcalm : isTimeout o = false := by
    match o with
    | .event _ (.collectorTimeout c ..) => simpa [episodeOf] using ho c
    | .event _ (.collectorRecovered _) => rfl
    | .event _ (.primaryFallback ..) => rfl
    | .arrived _ => rfl
    | .dropped _ => rfl
    | .recorded _ => rfl
  constructor
  · intro c
    rw [hsame]
    exact h.alternates c
  · intro c
    rw [hsame]
    exact h.timedOut c
  · refine h.recovered_concat ?_
    rintro stamp c rfl
    simpa [episodeOf] using ho c
  · rw [List.countP_append, ← h.counted, List.countP_singleton, hcalm]
    rfl

/-- A collector that is not timed out begins an episode. -/
theorem begin (h : Watched w seen) {c : String} (hc : c ∉ w.timedOut) (stamp : ClockStamp)
    (overdue iv : UInt64) :
    Watched ⟨insert c w.timedOut, w.episodes + 1⟩
      (seen ++ [.event stamp (.collectorTimeout c overdue iv)]) := by
  have hown : episodes c (seen ++ [.event stamp (.collectorTimeout c overdue iv)]) =
      episodes c seen ++ [true] := by
    simp [episodes, episodeOf]
  have hother : ∀ d, d ≠ c →
      episodes d (seen ++ [.event stamp (.collectorTimeout c overdue iv)]) = episodes d seen := by
    intro d hd
    simp [episodes, episodeOf, hd.symm]
  have heven : (episodes c seen).length % 2 = 0 := by
    have := mt (h.timedOut c).mpr hc
    omega
  constructor
  · intro d
    by_cases hd : d = c
    · subst hd
      have hnext := (h.alternates d).concat
      rw [heven] at hnext
      rw [hown]
      exact hnext
    · rw [hother d hd]
      exact h.alternates d
  · intro d
    rw [Finset.mem_insert]
    by_cases hd : d = c
    · subst hd
      rw [hown, List.length_append, List.length_singleton]
      exact iff_of_true (Or.inl rfl) (by omega)
    · rw [hother d hd, or_iff_right hd]
      exact h.timedOut d
  · refine h.recovered_concat ?_
    intro stamp' c' heq
    cases heq
  · rw [List.countP_append, ← h.counted]
    rfl

/-- One that is timed out ends its episode with the message that arrived. -/
theorem recover {c : String} (h : Watched w (seen ++ [.arrived c])) (hc : c ∈ w.timedOut)
    (stamp : ClockStamp) :
    Watched ⟨w.timedOut.erase c, w.episodes⟩
      (seen ++ [.arrived c] ++ [.event stamp (.collectorRecovered c)]) := by
  have hown : ∀ front, episodes c (front ++ [.event stamp (.collectorRecovered c)]) =
      episodes c front ++ [false] := by
    intro front
    simp [episodes, episodeOf]
  have hother : ∀ d, d ≠ c → ∀ front,
      episodes d (front ++ [.event stamp (.collectorRecovered c)]) = episodes d front := by
    intro d hd front
    simp [episodes, episodeOf, hd.symm]
  have hodd := (h.timedOut c).mp hc
  constructor
  · intro d
    by_cases hd : d = c
    · subst hd
      have hnext := (h.alternates d).concat
      rw [hodd] at hnext
      rw [hown]
      exact hnext
    · rw [hother d hd]
      exact h.alternates d
  · intro d
    rw [Finset.mem_erase]
    by_cases hd : d = c
    · subst hd
      rw [hown, List.length_append, List.length_singleton]
      exact iff_of_false (fun hmem => hmem.1 rfl) (by omega)
    · rw [hother d hd, and_iff_right hd]
      exact h.timedOut d
  · refine h.recovered_concat ?_
    intro stamp' c' heq
    obtain ⟨-, hname⟩ := Occurrence.event.inj heq
    obtain rfl := TimelineEvent.collectorRecovered.inj hname
    exact ⟨seen, rfl⟩
  · have hcounted := h.counted
    rw [List.countP_append, ← hcounted]
    rfl

end Watched

/-! ## Passes -/

namespace WriterState

variable {cfg : Config} {st : WriterState}

def Watches (st : WriterState) : Prop := Watched st.timeouts st.trace

theorem Watches.pollCollector (h : st.Watches) (now : ClockStamp) (name : String) :
    (st.pollCollector cfg now name).Watches := by
  unfold WriterState.pollCollector
  cases hiv : cfg.schedIv name with
  | none => exact h
  | some iv =>
      dsimp only
      unfold TimeoutWatch.poll
      split
      next hnew => exact Watched.begin h hnew.2 _ _ _
      next => exact h

theorem Watches.pollCollectorTimeouts (h : st.Watches) (now : ClockStamp) :
    (st.pollCollectorTimeouts cfg now).Watches := by
  unfold WriterState.pollCollectorTimeouts
  induction cfg.active generalizing st with
  | nil => exact h
  | cons name active ih => exact ih (h.pollCollector now name)

theorem Watches.noteArrival (h : st.Watches) (msg : Message) : (st.noteArrival msg).Watches := by
  have harrived : Watched st.timeouts (st.trace ++ [.arrived msg.collector]) :=
    Watched.neutral h fun _ => rfl
  unfold WriterState.noteArrival TimeoutWatch.noteArrival
  -- only a collector that is timed out recovers, and it is no longer timed out then
  by_cases hout : msg.collector ∈ st.timeouts.timedOut
  · simp only [hout, decide_true, if_true]
    exact harrived.recover hout msg.stamp
  · simp only [hout, decide_false, Bool.false_eq_true, if_false, Finset.erase_eq_of_notMem hout]
    exact harrived

theorem Watches.log (h : st.Watches) {o : Occurrence} (ho : ∀ c, episodeOf c o = none) :
    (st.log o).Watches := Watched.neutral h ho

theorem Watches.countTick (h : st.Watches) (c : String) : (st.countTick cfg c).Watches := by
  unfold WriterState.countTick
  dsimp only
  split
  · split
    · split
      · exact h
      · exact h
    · exact h
  · exact h

theorem Watches.record (h : st.Watches) (msg : Message) : (st.record cfg msg).Watches := by
  have hexpected :
      (if (cfg.schedIv msg.collector).isSome then st.expect msg else st).Watches := by
    split
    · exact h
    · exact h
  have hfallback : ∀ {s : WriterState}, s.Watches → (s.fallBack cfg msg).Watches := by
    intro s hs
    unfold WriterState.fallBack
    split
    · exact Watched.neutral hs fun _ => rfl
    · exact hs
  unfold WriterState.record
  dsimp only
  split
  · exact ((hfallback hexpected).log fun _ => rfl).countTick msg.collector
  · exact hfallback hexpected

theorem Watches.receive (h : st.Watches) (r : Received) : (st.receive cfg r).Watches := by
  unfold WriterState.receive
  split
  next msg paused =>
    split
    · have hdrop : ((st.noteArrival msg).expect msg).Watches := h.noteArrival msg
      exact hdrop.log fun _ => rfl
    · exact (h.noteArrival msg).record msg
  · exact h
  · exact h

theorem Watches.step {pass : Pass} {next : WriterState} (h : st.Watches)
    (hstep : st.step cfg pass = some next) : next.Watches := by
  have hpolled : (st.pollCollectorTimeouts cfg pass.now).Watches := h.pollCollectorTimeouts pass.now
  have hreceived : ((st.pollCollectorTimeouts cfg pass.now).receive cfg pass.received).Watches :=
    hpolled.receive pass.received
  unfold WriterState.step at hstep
  dsimp only at hstep
  -- the ways to end leave the watch and the trace alone
  split_ifs at hstep <;> obtain rfl := Option.some.inj hstep
  · exact hpolled
  · exact hpolled
  · exact hreceived
  · exact hreceived

end WriterState

/-- After every run of the loop, the events of each collector are a timeout, a recovery, a timeout
and so on in turn, every recovery is behind the arrival of a message of its collector, and there are
as many episodes as timeouts. -/
theorem timeouts_alternate {cfg : Config} {passes : List Pass} {st : WriterState}
    (hrun : run (WriterState.step cfg) (.start cfg) passes = some st) :
    (∀ c, Alternates (episodes c st.trace)) ∧
      (∀ i stamp c, st.trace[i]? = some (.event stamp (.collectorRecovered c)) →
        ∃ j, i = j + 1 ∧ st.trace[j]? = some (.arrived c)) ∧
      st.timeouts.episodes = st.trace.countP isTimeout := by
  have hwatched : st.Watches := by
    refine invariant (fun s a t hs hstep => WriterState.Watches.step hs hstep) ?_ hrun
    exact Watched.start
  exact ⟨hwatched.alternates, hwatched.recovered, hwatched.counted⟩

/-- One collector with a cadence of a second. -/
def oneCollector : Config where
  active := ["cpu"]
  active_ne := by decide
  schedIv _ := some 1000
  startMonoMs := 0
  baseInterval := 1000
  samples := none

/-- Nothing for six seconds, and then a message. -/
def stalledOnce : List Pass :=
  [⟨⟨0, 6000⟩, false, false, .timeout, false⟩,
    ⟨⟨0, 6100⟩, false, false, .message ⟨"cpu", ⟨0, 6100⟩, true⟩ false, false⟩]

theorem timeouts_alternate_stalledOnce :
    ∃ st, run (WriterState.step oneCollector) (.start oneCollector) stalledOnce = some st ∧
      Alternates (episodes "cpu" st.trace) ∧ st.timeouts.episodes = st.trace.countP isTimeout := by
  have hruns : (run (WriterState.step oneCollector) (.start oneCollector) stalledOnce).isSome := by
    decide
  obtain ⟨st, hrun⟩ := Option.isSome_iff_exists.mp hruns
  obtain ⟨halternates, -, hcounted⟩ := timeouts_alternate hrun
  exact ⟨st, hrun, halternates "cpu", hcounted⟩

example : (run (WriterState.step oneCollector) (.start oneCollector) stalledOnce).map
    (fun st => episodes "cpu" st.trace) = some [true, false] := by decide

end PowerForensics.Monitor
