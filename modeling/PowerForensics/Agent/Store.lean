import PowerForensics.Agent.Monitor
import PowerForensics.Core.JsonText
import PowerForensics.Core.SessionLoader

/-! # Recovery of a session without a footer

The lines of a torn session are kept up to the first one that is no record, and a
footer is written from the battery records among them. The footer is put together by
formatting, with the same integration that the analysis uses.
-/

namespace PowerForensics.Store

open Json Stats Monitor

/-! ## The scan -/

/-- A line read by itself. -/
def readLine (line : List Char) : Except String JVal :=
  parse (String.ofList (Lines.trim line))

def recordType (v : JVal) : String := (v.strAt "type").getD ""

def isFooter (v : JVal) : Bool := recordType v = "session_footer"

def isHeader (v : JVal) : Bool := recordType v = "session_header"

/-- A sample, an event or the header. -/
def isRecord (v : JVal) : Bool :=
  (v.strAt "collector").isSome ∨ recordType v = "event" ∨ isHeader v

structure Scan where
  kept : List (List Char)
  hasHeader : Bool
  lastWall : UInt64
  intervalMs : UInt64

def Scan.start : Scan := ⟨[], false, 0, 1000⟩

/-- The cadence that a header records. -/
def headerInterval (v : JVal) (intervalMs : UInt64) : UInt64 :=
  match v.numAt "interval_ms" with
  | some iv => if iv ≥ 1.0 then Session.asU64 iv else intervalMs
  | none => intervalMs

/-- The latest wall clock seen. -/
def laterWall (v : JVal) (lastWall : UInt64) : UInt64 :=
  match v.numAt "wall_ms" with
  | some w => if w > 0.0 then max lastWall (Session.asU64 w) else lastWall
  | none => lastWall

def Scan.keep (scan : Scan) (line : List Char) (v : JVal) : Scan where
  kept := scan.kept ++ [line]
  hasHeader := scan.hasHeader || isHeader v
  lastWall := laterWall v scan.lastWall
  intervalMs := if isHeader v then headerInterval v scan.intervalMs else scan.intervalMs

/-- The loop over the lines. It stops at the first line that is no record. -/
def scanLines : List (List Char) → Scan → Except String Scan
  | [], scan => .ok scan
  | line :: rest, scan =>
      if Lines.trim line = [] then scanLines rest scan
      else
        match readLine line with
        | .error _ => .ok scan
        | .ok v =>
            if isFooter v then .error "session already has a footer"
            else if isRecord v then scanLines rest (scan.keep line v)
            else .ok scan

/-! ## The summary -/

def maxClockSkewSecs : Binary64 := 2.0

/-- Both clocks in seconds and the two powers of a battery record. -/
def sampleOf (v : JVal) : Sample Binary64 where
  mono := (v.numAt "mono_ms").getD 0.0 / 1000.0
  wall := (v.numAt "wall_ms").getD 0.0 / 1000.0
  discharge := v.numIn "discharge_w"
  charge := v.numIn "charge_w"

def batterySample (line : List Char) : Option (Sample Binary64) :=
  match readLine line with
  | .ok v => if v.strAt "collector" = some "battery" then some (sampleOf v) else none
  | .error _ => none

structure Summary where
  samples : Nat
  dischargeN : Nat
  chargeN : Nat
  dischargeMedianW : Option Binary64
  discharge : SegmentEnergy Binary64
  charge : SegmentEnergy Binary64
  /-- Counts by the index of the kind. -/
  kinds : List Nat

/-- The number of boundaries of each kind. -/
def countKinds (ds : List (Discontinuity Binary64)) : List Nat :=
  ds.foldl (fun kinds d => kinds.modify d.kind.index (· + 1)) [0, 0, 0, 0]

def summarize (intervalMs : UInt64) (samples : List (Sample Binary64)) : Summary :=
  let times := samples.map Sample.mono
  let walls := samples.map Sample.wall
  let watts := samples.map Sample.discharge
  let charges := samples.map Sample.charge
  let gap := energyMaxGapSecs intervalMs.toNat
  { samples := times.length
    dischargeN := (watts.filterMap id).length
    chargeN := (charges.filter Option.isSome).length
    dischargeMedianW := median (watts.filterMap id)
    discharge := integrateSegmentedClocks times walls watts gap maxClockSkewSecs
    charge := integrateSegmentedClocks times walls charges gap maxClockSkewSecs
    kinds := countKinds (discontinuities times walls gap maxClockSkewSecs) }

/-! ## The footer -/

def decimal (n : Nat) : List Char := Nat.toDigits 10 n

def nullText : List Char := "null".toList

def numText (o : Option Binary64) (prec : Nat) : List Char :=
  match o with
  | some v => v.fixed prec
  | none => nullText

/-- The energy of a direction, when any time was covered. -/
def coveredWh (seg : SegmentEnergy Binary64) : Option Binary64 :=
  if seg.coveredSecs > 0.0 then some seg.energyWh else none

def coveragePct (seg : SegmentEnergy Binary64) : Option Binary64 :=
  seg.coverage.map (· * 100.0)

def kindsText (kinds : List Nat) : List Char :=
  objectText (DiscontinuityKind.all.map fun k => (k.asStr, decimal (kinds.getD k.index 0)))

def summaryText (s : Summary) : List Char :=
  objectText
    [("samples", decimal s.samples), ("discharge_n", decimal s.dischargeN),
      ("charge_n", decimal s.chargeN), ("discharge_median_w", numText s.dischargeMedianW 3),
      ("discharge_wh", numText (coveredWh s.discharge) 4),
      ("charge_wh", numText (coveredWh s.charge) 4),
      ("discharge_coverage_pct", numText (coveragePct s.discharge) 1),
      ("charge_coverage_pct", numText (coveragePct s.charge) 1),
      ("discharge_unknown_s", s.discharge.unknownSecs.fixed 0),
      ("discharge_unobserved_s", s.discharge.unobservedSecs.fixed 0),
      ("discharge_discontinuities", decimal s.discharge.discontinuities),
      ("discharge_discontinuity_kinds", kindsText s.kinds), ("recovered", "true".toList)]

def footerText (wall : UInt64) (lines : Nat) (s : Summary) : List Char :=
  objectText
    [("type", (stringToJson "session_footer").toList), ("wall_ms", decimal wall.toNat),
      ("lines", decimal lines), ("recovered", "true".toList), ("summary", summaryText s)]

/-- The kept lines and the footer. -/
def recoveredText (kept : List (List Char)) (wall : UInt64) (s : Summary) : List Char :=
  List.intercalate ['\n'] kept ++ ['\n'] ++ footerText wall (kept.length + 1) s ++ ['\n']

/-- The last wall clock observed, or else the current one. -/
def Scan.footerWall (scan : Scan) (wallNowMs : UInt64) : UInt64 :=
  if scan.lastWall > 0 then scan.lastWall else wallNowMs

def Scan.summary (scan : Scan) : Summary :=
  summarize scan.intervalMs (scan.kept.filterMap batterySample)

def recoverSessionText (original : String) (wallNowMs : UInt64) : Except String String :=
  match scanLines (Lines.lines original.toList) Scan.start with
  | .error e => .error e
  | .ok scan =>
      if scan.hasHeader then
        .ok (String.ofList (recoveredText scan.kept (scan.footerWall wallNowMs) scan.summary))
      else .error "no session_header: nothing to recover"

/-! ## What the scan keeps -/

/-- A line that the scan goes over and keeps. -/
def usable (line : List Char) : Bool :=
  match readLine line with
  | .ok v => !isFooter v && isRecord v
  | .error _ => false

/-- A line that is a footer. -/
def isFooterLine (line : List Char) : Bool :=
  match readLine line with
  | .ok v => isFooter v
  | .error _ => false

def nonBlank (line : List Char) : Bool := Lines.trim line ≠ []

/-- The longest run of records at the start, blank lines left out. -/
def usablePrefix (ls : List (List Char)) : List (List Char) := (ls.filter nonBlank).takeWhile usable

/-- What stops the run. -/
def stopper (ls : List (List Char)) : Option (List Char) :=
  ((ls.filter nonBlank).dropWhile usable).head?

def Scan.keepLine (scan : Scan) (line : List Char) : Scan :=
  match readLine line with
  | .ok v => scan.keep line v
  | .error _ => scan

theorem run_blank {line : List Char} (hline : Lines.trim line = []) (ls : List (List Char)) :
    usablePrefix (line :: ls) = usablePrefix ls ∧ stopper (line :: ls) = stopper ls := by
  simp [usablePrefix, stopper, nonBlank, hline]

theorem run_usable {line : List Char} (hline : Lines.trim line ≠ []) (husable : usable line)
    (ls : List (List Char)) :
    usablePrefix (line :: ls) = line :: usablePrefix ls ∧ stopper (line :: ls) = stopper ls := by
  simp [usablePrefix, stopper, nonBlank, hline, husable]

theorem run_stopped {line : List Char} (hline : Lines.trim line ≠ [])
    (husable : usable line = false) (ls : List (List Char)) :
    usablePrefix (line :: ls) = [] ∧ stopper (line :: ls) = some line := by
  simp [usablePrefix, stopper, nonBlank, hline, husable]

/-- The scan keeps the longest run of records and fails exactly if a footer stops it. -/
theorem scanLines_eq (ls : List (List Char)) (scan : Scan) :
    scanLines ls scan =
      if (stopper ls).any isFooterLine then .error "session already has a footer"
      else .ok ((usablePrefix ls).foldl Scan.keepLine scan) := by
  induction ls generalizing scan with
  | nil => rfl
  | cons line ls ih =>
      rw [scanLines]
      by_cases hblank : Lines.trim line = []
      · obtain ⟨hbegins, hstop⟩ := run_blank hblank ls
        rw [if_pos hblank, ih, hbegins, hstop]
      · rw [if_neg hblank]
        cases hread : readLine line with
        | error e =>
            obtain ⟨hbegins, hstop⟩ := run_stopped hblank (by simp [usable, hread]) ls
            simp [hbegins, hstop, isFooterLine, hread]
        | ok v =>
            dsimp only
            by_cases hfooter : isFooter v = true
            · obtain ⟨hbegins, hstop⟩ :=
                run_stopped hblank (by simp [usable, hread, hfooter]) ls
              simp [hstop, isFooterLine, hread, hfooter]
            · by_cases hrecord : isRecord v = true
              · obtain ⟨hbegins, hstop⟩ :=
                  run_usable hblank (by simp [usable, hread, hfooter, hrecord]) ls
                have hkeep : scan.keepLine line = scan.keep line v := by
                  simp only [Scan.keepLine, hread]
                rw [if_neg hfooter, if_pos hrecord, ih, hbegins, hstop, List.foldl_cons, hkeep]
              · obtain ⟨hbegins, hstop⟩ :=
                  run_stopped hblank (by simp [usable, hread, hrecord]) ls
                simp [hbegins, hstop, isFooterLine, hread, hfooter, hrecord]

theorem usable_of_mem {ls : List (List Char)} {line : List Char}
    (hline : line ∈ usablePrefix ls) : usable line = true :=
  List.mem_takeWhile_imp hline

theorem mem_of_mem_usablePrefix {ls : List (List Char)} {line : List Char}
    (hline : line ∈ usablePrefix ls) : line ∈ ls :=
  List.mem_of_mem_filter ((List.takeWhile_prefix usable).subset hline)

/-- A usable line is read as a record that is no footer. -/
theorem exists_of_usable {line : List Char} (hline : usable line = true) :
    ∃ v, readLine line = .ok v ∧ isFooter v = false ∧ isRecord v = true := by
  unfold usable at hline
  split at hline
  next v hv =>
    rw [Bool.and_eq_true, Bool.not_eq_true'] at hline
    exact ⟨v, hv, hline⟩
  · cases hline

/-- A blank line is no record. -/
theorem trim_ne_nil_of_usable {line : List Char} (hline : usable line = true) :
    Lines.trim line ≠ [] := by
  intro hblank
  obtain ⟨v, hv, -⟩ := exists_of_usable hline
  rw [readLine, hblank, parse_eq_ok_iff] at hv
  cases hv

/-- Usable lines are kept up to one that is not. -/
theorem run_append {ls : List (List Char)} (hls : ∀ l ∈ ls, usable l = true)
    {last : List Char} (hlast : Lines.trim last ≠ []) (hstop : usable last = false)
    (rest : List (List Char)) : usablePrefix (ls ++ last :: rest) = ls ∧
      stopper (ls ++ last :: rest) = some last := by
  induction ls with
  | nil => exact run_stopped hlast hstop rest
  | cons line ls ih =>
      have husable := hls line List.mem_cons_self
      obtain ⟨hbegins, hstopper⟩ :=
        run_usable (trim_ne_nil_of_usable husable) husable (ls ++ last :: rest)
      obtain ⟨ihkept, ihstopper⟩ := ih fun l hl => hls l (List.mem_cons_of_mem line hl)
      rw [List.cons_append, hbegins, hstopper, ihkept, ihstopper]
      exact ⟨rfl, rfl⟩

theorem kept_foldl (ls : List (List Char)) (hls : ∀ l ∈ ls, usable l = true) (scan : Scan) :
    (ls.foldl Scan.keepLine scan).kept = scan.kept ++ ls := by
  induction ls generalizing scan with
  | nil => simp
  | cons line ls ih =>
      obtain ⟨v, hv, -⟩ := exists_of_usable (hls line List.mem_cons_self)
      rw [List.foldl_cons, ih fun l hl => hls l (List.mem_cons_of_mem line hl)]
      simp [Scan.keepLine, hv, Scan.keep]

/-- What the scan of a whole text ends with. -/
def scanOf (original : String) : Scan :=
  (usablePrefix (Lines.lines original.toList)).foldl Scan.keepLine Scan.start

theorem kept_scanOf (original : String) :
    (scanOf original).kept = usablePrefix (Lines.lines original.toList) := by
  rw [scanOf, kept_foldl _ (fun _ => usable_of_mem)]
  rfl

/-- What a recovery that succeeds has read and written. -/
theorem recoverSessionText_eq_ok {original out : String} {wallNowMs : UInt64} :
    recoverSessionText original wallNowMs = .ok out ↔
      (stopper (Lines.lines original.toList)).any isFooterLine = false ∧
        (scanOf original).hasHeader = true ∧
        out = String.ofList (recoveredText (scanOf original).kept
          ((scanOf original).footerWall wallNowMs) (scanOf original).summary) := by
  rw [recoverSessionText, scanLines_eq, ← scanOf]
  by_cases hstop : (stopper (Lines.lines original.toList)).any isFooterLine = true
  · simp [hstop]
  · rw [if_neg hstop]
    by_cases hheader : (scanOf original).hasHeader = true
    · simp only [hstop, hheader, if_true, Except.ok.injEq, true_and, eq_comm]
    · simp [hheader]

end PowerForensics.Store
