import PowerForensics.Core.Session
import PowerForensics.Text.Search

/-! # Scan of a recording

One pass over the lines of a recording that counts records and events without parsing them: a
field is found by its quoted key and read up to the next quote. The counts are put together as
the whole-session statistics.
-/

namespace PowerForensics.Index

open Session Search

/-! ## Fields of a line -/

def stripChar (c : Char) : List Char → Option (List Char)
  | d :: cs => if d = c then some cs else none
  | [] => none

/-- What stands behind a key and its colon. -/
def fieldRest (line key : List Char) : Option (List Char) := do
  let rest ← behind key line
  let rest ← stripChar ':' (trimStart rest)
  return trimStart rest

/-- A string field, from the first occurrence of its key up to the next quote. -/
def strField (line key : List Char) : Option (List Char) := do
  let rest ← fieldRest line key
  let rest ← stripChar '"' rest
  if '"' ∈ rest then some (rest.takeWhile (· ≠ '"')) else none

/-- A field that is an integer and not negative. -/
def numField (line key : List Char) : Option UInt64 := do
  let rest ← fieldRest line key
  parseU64 (rest.takeWhile isDigit)

def typeKey : List Char := "\"type\"".toList
def kindKey : List Char := "\"kind\"".toList
def collectorKey : List Char := "\"collector\"".toList
def wallKey : List Char := "\"wall_ms\"".toList

/-! ## Counting -/

structure CollectorSampleCount where
  name : String
  samples : Nat
  deriving DecidableEq

structure SessionStats where
  totalSamples : Nat
  ticks : Nat
  collectorSamples : List CollectorSampleCount
  firstSampleWallMs : Option UInt64
  lastSampleWallMs : Option UInt64
  observedHz : Option Binary64
  events : Nat
  markers : Nat
  timeouts : Nat
  recoveries : Nat
  errors : Nat
  discontinuities : Option Binary64
  durationS : Option Binary64
  deriving DecidableEq

/-- What an event is counted as. -/
inductive EventClass where
  | marker
  | timeout
  | recovery
  | error
  | other
  deriving DecidableEq

def contains (key cs : List Char) : Bool := (behind key cs).isSome

def classify (kind : List Char) : EventClass :=
  if kind = "marker".toList then .marker
  else if contains "timeout".toList kind then .timeout
  else if contains "recover".toList kind then .recovery
  else if contains "error".toList kind ∨ contains "fail".toList kind then .error
  else .other

/-- No more than so many distinct times are told apart. -/
def tickCap : Nat := 2000000

/-- The counts so far. The collectors are kept in the order of their names. -/
structure Tally where
  classes : List EventClass
  counts : List (String × Nat)
  firstWall : Option UInt64
  lastWall : Option UInt64
  ticks : List UInt64

def Tally.start : Tally := ⟨[], [], none, none, []⟩

/-- One more sample of a collector. -/
def bump (name : String) : List (String × Nat) → List (String × Nat)
  | [] => [(name, 1)]
  | (other, n) :: rest =>
      if name = other then (other, n + 1) :: rest
      else if name < other then (name, 1) :: (other, n) :: rest
      else (other, n) :: bump name rest

/-- The time of a sample. -/
def Tally.note (t : Tally) (wall : UInt64) : Tally :=
  { t with
    firstWall := some (t.firstWall.elim wall (min · wall))
    lastWall := some (t.lastWall.elim wall (max · wall))
    ticks := if t.ticks.length < tickCap ∧ wall ∉ t.ticks then wall :: t.ticks else t.ticks }

def Tally.sample (t : Tally) (collector : String) (wall : Option UInt64) : Tally :=
  let t := { t with counts := bump collector t.counts }
  wall.elim t t.note

def Tally.event (t : Tally) (kind : List Char) : Tally :=
  { t with classes := t.classes ++ [classify kind] }

def Tally.count (t : Tally) (c : EventClass) : Nat := t.classes.countP (· = c)

def Tally.durationS (t : Tally) : Option Binary64 :=
  match t.firstWall, t.lastWall with
  | some a, some b => if a < b then some (ofU64 (b - a) / 1000.0) else none
  | _, _ => none

/-- The statistics, with the rate of the busiest collector. -/
def Tally.stats (t : Tally) : SessionStats where
  totalSamples := (t.counts.map Prod.snd).foldr (· + ·) 0
  ticks := t.ticks.length
  collectorSamples := t.counts.map fun (name, samples) => ⟨name, samples⟩
  firstSampleWallMs := t.firstWall
  lastSampleWallMs := t.lastWall
  observedHz := (t.durationS.filter (0 < ·)).map fun d =>
    (((t.counts.map Prod.snd).foldr max 0 : Nat) : Binary64) / d
  events := t.classes.length
  markers := t.count .marker
  timeouts := t.count .timeout
  recoveries := t.count .recovery
  errors := t.count .error
  discontinuities := none
  durationS := t.durationS

/-! ## The scan -/

/-- A file larger than this is not scanned. -/
def scanMaxBytes : Nat := 256 * 1024 * 1024

structure ScanDetails where
  markers : Nat
  collectors : List String
  stats : SessionStats

def scanLine (t : Tally) (line : List Char) : Tally :=
  if strField line typeKey = some "event".toList then
    t.event ((strField line kindKey).getD [])
  else
    match strField line collectorKey with
    | none => t
    | some collector =>
        if collector = [] then t
        else t.sample (String.ofList collector) (numField line wallKey)

/-- A line without its line break. -/
def stripBreak (line : List Char) : List Char :=
  if line.getLast? = some '\n' then Lines.stripCr line.dropLast else line

/-- The lines of a file up to the first one that is no text. -/
def readLines (bs : List UInt8) : List (List Char) :=
  (((byteLines bs).map Utf8.decode).takeWhile Option.isSome).filterMap fun line =>
    line.map stripBreak

def scanTally (bs : List UInt8) : Tally := (readLines bs).foldl scanLine .start

def scanDetails (bs : List UInt8) : Option ScanDetails :=
  if scanMaxBytes < bs.length then none
  else
    let t := scanTally bs
    some ⟨t.count .marker, t.counts.map Prod.fst, t.stats⟩

end PowerForensics.Index
