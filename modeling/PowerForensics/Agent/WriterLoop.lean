import Mathlib.Data.Finset.Basic
import Mathlib.Data.List.Count
import PowerForensics.Core.Telemetry
import PowerForensics.System.Runs

/-! # The writer loop

One pass of the loop looks for collectors that are overdue, checks the stop flags and takes at most
one message from the workers. The loop is modelled as far as its decisions go: which collectors are
timed out, which messages are dropped in a pause, which collector bounds the session, and what ends
it.
-/

namespace PowerForensics.Monitor

open Runs

/-! ## Timeouts -/

def maxU64 : Nat := 2 ^ 64 - 1

/-- The differences and products are saturated. -/
def arrivalOverdue (nowMono lastMono intervalMs : UInt64) : Bool :=
  min (min (intervalMs.toNat * 3) maxU64 + 2000) maxU64 < nowMono.toNat - lastMono.toNat

structure TimeoutWatch where
  timedOut : Finset String
  episodes : Nat

namespace TimeoutWatch

def new : TimeoutWatch := ⟨∅, 0⟩

/-- Whether a new episode begins. -/
def poll (w : TimeoutWatch) (name : String) (nowMono lastMono intervalMs : UInt64) :
    Bool × TimeoutWatch :=
  if arrivalOverdue nowMono lastMono intervalMs ∧ name ∉ w.timedOut then
    (true, ⟨insert name w.timedOut, w.episodes + 1⟩)
  else (false, w)

/-- Whether an episode ends. -/
def noteArrival (w : TimeoutWatch) (name : String) : Bool × TimeoutWatch :=
  (decide (name ∈ w.timedOut), ⟨w.timedOut.erase name, w.episodes⟩)

end TimeoutWatch

/-! ## What the loop leaves behind -/

inductive TimelineEvent where
  | collectorTimeout (collector : String) (overdueMs intervalMs : UInt64)
  | collectorRecovered (collector : String)
  | primaryFallback (old new : String) (graceMs : UInt64)
  deriving DecidableEq

/-- What happens in the loop, in its order: events of the timeline, messages that arrive, and
whether their samples are dropped or recorded. -/
inductive Occurrence where
  | event (stamp : ClockStamp) (e : TimelineEvent)
  | arrived (collector : String)
  | dropped (collector : String)
  | recorded (collector : String)
  deriving DecidableEq

inductive Ending where
  | interrupted
  | stopRequested
  | writeFailed
  | limitReached
  | disconnected
  | stopFile
  deriving DecidableEq

/-! ## States and passes -/

/-- What is known before the loop begins. A limit is never zero. -/
structure Config where
  active : List String
  active_ne : active ≠ []
  schedIv : String → Option UInt64
  startMonoMs : UInt64
  baseInterval : UInt64
  samples : Option { n : UInt64 // 0 < n }

/-- The battery bounds the session if it is active, and otherwise the first collector. -/
def Config.primary (cfg : Config) : String :=
  if "battery" ∈ cfg.active then "battery" else cfg.active.head cfg.active_ne

/-- How long the bounding collector may be silent at first. -/
def Config.grace (cfg : Config) : UInt64 :=
  .ofNat (max (min (cfg.baseInterval.toNat * 30) maxU64) 30000)

structure WriterState where
  timeouts : TimeoutWatch
  expected : String → Option UInt64
  tickCollector : String
  tick : UInt64
  primaryFallbackDone : Bool
  trace : List Occurrence
  ended : Option Ending

def WriterState.start (cfg : Config) : WriterState where
  timeouts := .new
  expected _ := none
  tickCollector := cfg.primary
  tick := 0
  primaryFallbackDone := false
  trace := []
  ended := none

/-- A message of a worker, and whether the handler of its payload writes its lines. -/
structure Message where
  collector : String
  stamp : ClockStamp
  written : Bool

/-- What the channel has within the time that a pass waits for it. -/
inductive Received where
  | message (msg : Message) (paused : Bool)
  | timeout
  | disconnected

/-- What a pass finds. -/
structure Pass where
  now : ClockStamp
  interrupted : Bool
  stopRequested : Bool
  received : Received
  stopFile : Bool

namespace WriterState

def log (st : WriterState) (o : Occurrence) : WriterState := { st with trace := st.trace ++ [o] }

def finish (st : WriterState) (e : Ending) : WriterState := { st with ended := some e }

/-- The collectors are polled one after another. One without a cadence is not. -/
def pollCollector (cfg : Config) (now : ClockStamp) (st : WriterState) (name : String) :
    WriterState :=
  match cfg.schedIv name with
  | none => st
  | some iv =>
      let base := (st.expected name).getD cfg.startMonoMs
      let polled := st.timeouts.poll name now.monoMillis base iv
      let st := { st with timeouts := polled.2 }
      if polled.1 then
        let overdue := .ofNat (now.monoMillis.toNat - base.toNat)
        st.log (.event now (.collectorTimeout name overdue iv))
      else st

def pollCollectorTimeouts (cfg : Config) (now : ClockStamp) (st : WriterState) : WriterState :=
  cfg.active.foldl (pollCollector cfg now) st

def noteArrival (st : WriterState) (msg : Message) : WriterState :=
  let noted := st.timeouts.noteArrival msg.collector
  let st := { st with timeouts := noted.2 }.log (.arrived msg.collector)
  if noted.1 then st.log (.event msg.stamp (.collectorRecovered msg.collector)) else st

def expect (st : WriterState) (msg : Message) : WriterState :=
  { st with expected := Function.update st.expected msg.collector (some msg.stamp.monoMillis) }

/-- Paused: the expected arrival stays current, and nothing else of the recording moves. -/
def drop (st : WriterState) (msg : Message) : WriterState :=
  (st.expect msg).log (.dropped msg.collector)

/-- The bounding collector is taken for silent: it has no sample, and the grace is over. -/
def fallsBack (cfg : Config) (st : WriterState) (msg : Message) : Bool :=
  cfg.samples.isSome && st.tick = 0 && !st.primaryFallbackDone &&
    decide (msg.collector ≠ st.tickCollector) &&
    decide (cfg.grace.toNat < msg.stamp.monoMillis.toNat - cfg.startMonoMs.toNat)

def fallBack (cfg : Config) (st : WriterState) (msg : Message) : WriterState :=
  if st.fallsBack cfg msg then
    { st with tickCollector := msg.collector, primaryFallbackDone := true }.log
      (.event msg.stamp (.primaryFallback st.tickCollector msg.collector cfg.grace))
  else st

/-- A sample of the bounding collector counts, and ends the session at the limit. -/
def countTick (cfg : Config) (st : WriterState) (collector : String) : WriterState :=
  if collector = st.tickCollector then
    let st := { st with tick := st.tick + 1 }
    match cfg.samples with
    | some limit => if limit.val ≤ st.tick then st.finish .limitReached else st
    | none => st
  else st

def record (cfg : Config) (st : WriterState) (msg : Message) : WriterState :=
  let st := if (cfg.schedIv msg.collector).isSome then st.expect msg else st
  let st := st.fallBack cfg msg
  if msg.written then (st.log (.recorded msg.collector)).countTick cfg msg.collector
  else st.finish .writeFailed

def receive (cfg : Config) (st : WriterState) : Received → WriterState
  | .message msg paused =>
      if paused then (st.noteArrival msg).drop msg else (st.noteArrival msg).record cfg msg
  | .timeout => st
  | .disconnected => st.finish .disconnected

/-- A pass of the loop, unless it has ended. -/
def step (cfg : Config) (st : WriterState) (pass : Pass) : Option WriterState :=
  if st.ended.isSome then none
  else
    let st := st.pollCollectorTimeouts cfg pass.now
    if pass.interrupted then some (st.finish .interrupted)
    else if pass.stopRequested then some (st.finish .stopRequested)
    else
      let st := st.receive cfg pass.received
      if st.ended.isNone && pass.stopFile then some (st.finish .stopFile) else some st

end WriterState

end PowerForensics.Monitor
