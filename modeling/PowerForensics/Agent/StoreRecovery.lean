import PowerForensics.Agent.Store
import PowerForensics.Core.SessionFaults

/-! # What a recovered session is good for

The text that recovery writes is read again by the same scan and by the session
loader. Its lines are the kept ones and the footer, so everything depends on whether
the footer is JSON, which it is exactly if every number printed in it is finite, and
on whether the loader can keep the reasons in the kept records.
-/

namespace PowerForensics.Store

open Json Stats Monitor

/-! ## Numbers of the footer -/

def AllFinite (o : Option Binary64) : Prop := ∀ x ∈ o, x.isFinite = true

instance : DecidablePred AllFinite := fun o =>
  inferInstanceAs (Decidable (∀ x ∈ o, x.isFinite = true))

/-- The energy and the coverage of a direction are finite where they are printed. -/
structure FiniteEnergy (seg : SegmentEnergy Binary64) : Prop where
  energy : AllFinite (coveredWh seg)
  coverage : AllFinite (coveragePct seg)

instance : DecidablePred FiniteEnergy := fun seg =>
  decidable_of_iff (AllFinite (coveredWh seg) ∧ AllFinite (coveragePct seg))
    ⟨fun ⟨energy, coverage⟩ => ⟨energy, coverage⟩, fun h => ⟨h.energy, h.coverage⟩⟩

/-- The statistics of a run of samples that a footer prints are finite. -/
structure FiniteStatistics (maxGap : Binary64) (samples : List (Sample Binary64)) : Prop where
  median : AllFinite (median ((samples.map Sample.discharge).filterMap id))
  discharge : FiniteEnergy (integrateSegmentedClocks (samples.map Sample.mono)
    (samples.map Sample.wall) (samples.map Sample.discharge) maxGap maxClockSkewSecs)
  charge : FiniteEnergy (integrateSegmentedClocks (samples.map Sample.mono)
    (samples.map Sample.wall) (samples.map Sample.charge) maxGap maxClockSkewSecs)
  unknown : (integrateSegmentedClocks (samples.map Sample.mono) (samples.map Sample.wall)
    (samples.map Sample.discharge) maxGap maxClockSkewSecs).unknownSecs.isFinite = true
  unobserved : (integrateSegmentedClocks (samples.map Sample.mono) (samples.map Sample.wall)
    (samples.map Sample.discharge) maxGap maxClockSkewSecs).unobservedSecs.isFinite = true

/-- Every number of the summary is finite where it is printed. -/
structure Summary.Finite (s : Summary) : Prop where
  median : AllFinite s.dischargeMedianW
  discharge : FiniteEnergy s.discharge
  charge : FiniteEnergy s.charge
  unknown : s.discharge.unknownSecs.isFinite = true
  unobserved : s.discharge.unobservedSecs.isFinite = true

instance : DecidablePred Summary.Finite := fun s =>
  decidable_of_iff (AllFinite s.dischargeMedianW ∧ FiniteEnergy s.discharge ∧
      FiniteEnergy s.charge ∧ s.discharge.unknownSecs.isFinite = true ∧
        s.discharge.unobservedSecs.isFinite = true)
    ⟨fun ⟨median, discharge, charge, unknown, unobserved⟩ =>
        ⟨median, discharge, charge, unknown, unobserved⟩,
      fun h => ⟨h.median, h.discharge, h.charge, h.unknown, h.unobserved⟩⟩

theorem summarize_finite (intervalMs : UInt64) (samples : List (Sample Binary64)) :
    (summarize intervalMs samples).Finite ↔
      FiniteStatistics (energyMaxGapSecs intervalMs.toNat) samples :=
  ⟨fun h => ⟨h.median, h.discharge, h.charge, h.unknown, h.unobserved⟩,
    fun h => ⟨h.median, h.discharge, h.charge, h.unknown, h.unobserved⟩⟩

section Footer

variable {levels : Nat}

/-- An optional number is read exactly if it is finite where it is there. -/
theorem reads_numText (o : Option Binary64) (prec : Nat) :
    Reads (valueReader (levels + 1)) (numText o prec) (AllFinite o) := by
  cases o with
  | none => exact (Reads.of_takes takes_null).congr (by simp [AllFinite])
  | some x => exact (reads_fixed prec x).congr (by simp [AllFinite])

theorem reads_decimal (n : Nat) : Reads (valueReader (levels + 1)) (decimal n) True :=
  .of_takes (takes_digits n)

theorem reads_kindsText (kinds : List Nat) :
    Reads (valueReader (levels + 2)) (kindsText kinds) True := by
  unfold kindsText
  refine (Reads.object _ [True, True, True, True] ?_).congr (by simp)
  exact .cons (reads_decimal _) (.cons (reads_decimal _) (.cons (reads_decimal _)
    (.cons (reads_decimal _) .nil)))

/-- The summary is JSON exactly if its numbers are finite. -/
theorem reads_summaryText (s : Summary) :
    Reads (valueReader (levels + 3)) (summaryText s) s.Finite := by
  unfold summaryText
  refine (Reads.object _ [True, True, True, AllFinite s.dischargeMedianW,
    AllFinite (coveredWh s.discharge), AllFinite (coveredWh s.charge),
    AllFinite (coveragePct s.discharge), AllFinite (coveragePct s.charge),
    s.discharge.unknownSecs.isFinite = true, s.discharge.unobservedSecs.isFinite = true, True,
    True, True] ?_).congr ?_
  · refine .cons (reads_decimal _) (.cons (reads_decimal _) (.cons (reads_decimal _)
      (.cons (reads_numText _ 3) (.cons ?_ (.cons ?_ (.cons ?_ (.cons ?_
        (.cons (reads_fixed 0 _) (.cons (reads_fixed 0 _) (.cons (reads_decimal _)
          (.cons (reads_kindsText _) (.cons (.of_takes takes_true) .nil))))))))))))
    all_goals
      dsimp only
      exact reads_numText _ _
  · constructor
    · intro h
      simp only [List.forall_mem_cons, true_and] at h
      obtain ⟨hmedian, hwh, hchargeWh, hpct, hchargePct, hunknown, hunobserved, -⟩ := h
      exact ⟨hmedian, ⟨hwh, hpct⟩, ⟨hchargeWh, hchargePct⟩, hunknown, hunobserved⟩
    · intro h
      simp [h.median, h.discharge.energy, h.discharge.coverage, h.charge.energy,
        h.charge.coverage, h.unknown, h.unobserved]

/-- The value of the footer line, given the one of its summary. -/
def footerValue (wall : UInt64) (lines : Nat) (summary : JVal) : JVal :=
  .obj [("type", .str "session_footer"), ("wall_ms", .num (.ofNat wall.toNat)),
    ("lines", .num (.ofNat lines)), ("recovered", .bool true), ("summary", summary)]

theorem takes_footerText {wall : UInt64} {lines : Nat} {s : Summary} {v : JVal}
    (hv : Takes (valueReader (levels + 3)) (summaryText s) v) :
    Takes (valueReader (levels + 4)) (footerText wall lines s) (footerValue wall lines v) := by
  refine takes_objectText
    [("type", (stringToJson "session_footer").toList, .str "session_footer"),
      ("wall_ms", decimal wall.toNat, .num (.ofNat wall.toNat)),
      ("lines", decimal lines, .num (.ofNat lines)), ("recovered", "true".toList, .bool true),
      ("summary", summaryText s, v)] ?_
  simp only [List.forall_mem_cons]
  exact ⟨takes_string _, takes_digits _, takes_digits _, takes_true, hv, by simp⟩

theorem refuses_footerText {wall : UInt64} {lines : Nat} {s : Summary} (hs : ¬ s.Finite) :
    Refuses (valueReader (levels + 4)) (footerText wall lines s) := by
  unfold footerText
  refine (Reads.object _ [True, True, True, True, s.Finite] ?_).refuses fun h => hs ?_
  · exact .cons (.of_takes (takes_string "session_footer")) (.cons (reads_decimal _)
      (.cons (reads_decimal _)
      (.cons (.of_takes takes_true) (.cons (reads_summaryText s) .nil))))
  · exact h _ (by simp)

end Footer

/-! ## The footer as a line -/

theorem newline_not_mem_decimal (n : Nat) : '\n' ∉ decimal n :=
  (Binary64.denotes_toDigits n).newline_not_mem

theorem newline_not_mem_numText (o : Option Binary64) (prec : Nat) : '\n' ∉ numText o prec := by
  cases o with
  | none => exact (by decide : '\n' ∉ nullText)
  | some x => exact x.newline_not_mem_fixed prec

theorem newline_not_mem_summaryText (s : Summary) : '\n' ∉ summaryText s := by
  have hkinds : '\n' ∉ kindsText s.kinds := by
    apply newline_not_mem_objectText
    intro m hm
    obtain ⟨k, _, rfl⟩ := List.mem_map.mp hm
    exact newline_not_mem_decimal _
  apply newline_not_mem_objectText
  simp [newline_not_mem_decimal, newline_not_mem_numText, Binary64.newline_not_mem_fixed, hkinds]

theorem newline_not_mem_footerText (wall : UInt64) (lines : Nat) (s : Summary) :
    '\n' ∉ footerText wall lines s := by
  apply newline_not_mem_objectText
  simp [newline_not_mem_decimal, newline_not_mem_stringToJson, newline_not_mem_summaryText]

/-! ## Reading a recovered session -/

theorem terminated_eq_intercalate {kept : List (List Char)} (hne : kept ≠ []) :
    List.intercalate ['\n'] kept ++ ['\n'] = Lines.terminated kept := by
  induction kept with
  | nil => exact absurd rfl hne
  | cons line kept ih =>
      cases kept with
      | nil => simp [List.intercalate, Lines.terminated]
      | cons next kept =>
          rw [Lines.terminated_cons, ← ih (by simp)]
          simp [List.intercalate]

/-- A recovered session is its lines, each ended by a line feed. -/
theorem recoveredText_eq {kept : List (List Char)} (hne : kept ≠ []) (wall : UInt64)
    (s : Summary) : recoveredText kept wall s =
      Lines.terminated (kept ++ [footerText wall (kept.length + 1) s]) := by
  rw [recoveredText, terminated_eq_intercalate hne, Lines.terminated_append]
  simp [Lines.terminated]

theorem readLine_stripCr (line : List Char) : readLine (Lines.stripCr line) = readLine line := by
  rw [readLine, Lines.trim_stripCr, readLine]

theorem readLine_footerText (wall : UInt64) (lines : Nat) (s : Summary) :
    readLine (footerText wall lines s) = parse (String.ofList (footerText wall lines s)) := by
  rw [readLine, footerText, trim_objectText]

/-- A footer with finite numbers is read as one. -/
theorem readLine_footer_of_finite {s : Summary} (hs : s.Finite) (wall : UInt64) (lines : Nat) :
    ∃ v, readLine (footerText wall lines s) = .ok (footerValue wall lines v) := by
  obtain ⟨v, hv⟩ := (reads_summaryText s).takes hs
  refine ⟨v, ?_⟩
  rw [readLine_footerText]
  apply parse_of_takes
  rw [String.toList_ofList]
  exact takes_footerText hv

/-- A footer with another number is no JSON. -/
theorem readLine_footer_of_not_finite {s : Summary} (hs : ¬ s.Finite) (wall : UInt64)
    (lines : Nat) (v : JVal) : readLine (footerText wall lines s) ≠ .ok v := by
  rw [readLine_footerText]
  exact not_parse_of_refuses (refuses_footerText hs) v

theorem isFooter_footerValue (wall : UInt64) (lines : Nat) (v : JVal) :
    isFooter (footerValue wall lines v) = true := rfl

theorem isFooterLine_footerText (wall : UInt64) (lines : Nat) (s : Summary) :
    isFooterLine (footerText wall lines s) = true ↔ s.Finite := by
  unfold isFooterLine
  by_cases hs : s.Finite
  · obtain ⟨v, hv⟩ := readLine_footer_of_finite hs wall lines
    simp only [hv, isFooter_footerValue, hs]
  · cases hread : readLine (footerText wall lines s) with
    | error e => simp [hs]
    | ok v => exact absurd hread (readLine_footer_of_not_finite hs wall lines v)

/-- The scan stops at the footer, whether it can be read or not. -/
theorem usable_footerText (wall : UInt64) (lines : Nat) (s : Summary) :
    usable (footerText wall lines s) = false := by
  unfold usable
  by_cases hs : s.Finite
  · obtain ⟨v, hv⟩ := readLine_footer_of_finite hs wall lines
    simp [hv, isFooter_footerValue]
  · cases hread : readLine (footerText wall lines s) with
    | error e => rfl
    | ok v => exact absurd hread (readLine_footer_of_not_finite hs wall lines v)

theorem trim_footerText (wall : UInt64) (lines : Nat) (s : Summary) :
    Lines.trim (footerText wall lines s) = footerText wall lines s := trim_objectText _

theorem footerText_ne_nil (wall : UInt64) (lines : Nat) (s : Summary) :
    footerText wall lines s ≠ [] := List.cons_ne_nil _ _

/-- The loader gets over the footer exactly if it can be read. -/
theorem loadable_footerText (wall : UInt64) (lines : Nat) (s : Summary) :
    Session.Loadable (footerText wall lines s) ↔ s.Finite := by
  have htrim : Lines.trim (footerText wall lines s) ≠ [] := by
    rw [trim_footerText]
    exact footerText_ne_nil _ _ _
  constructor
  · intro h
    by_contra hs
    obtain ⟨v, hv, -⟩ := h htrim
    exact readLine_footer_of_not_finite hs wall lines v hv
  · intro hs _
    obtain ⟨v, hv⟩ := readLine_footer_of_finite hs wall lines
    refine ⟨_, hv, ?_⟩
    intro collector hcollector
    cases hcollector

section Recovered

variable {kept : List (List Char)} (hkept : ∀ line ∈ kept, '\n' ∉ line ∧ usable line = true)
  (hne : kept ≠ []) (wall : UInt64) (s : Summary)

include hkept hne

/-- The lines of a recovered session. -/
theorem lines_recoveredText : Lines.lines (recoveredText kept wall s) =
    kept.map Lines.stripCr ++ [footerText wall (kept.length + 1) s] := by
  have hlines : ∀ line ∈ kept ++ [footerText wall (kept.length + 1) s], '\n' ∉ line := by
    intro line hline
    rcases List.mem_append.mp hline with h | h
    · exact (hkept line h).1
    · rw [List.mem_singleton.mp h]
      exact newline_not_mem_footerText _ _ _
  have hsplit := Lines.lines_terminated hlines []
  have hfooter : Lines.stripCr (footerText wall (kept.length + 1) s) =
      footerText wall (kept.length + 1) s := Lines.stripCr_of_trim (trim_objectText _)
  rw [List.append_nil, Lines.lines_nil, List.append_nil, ← recoveredText_eq hne] at hsplit
  rw [hsplit, List.map_append, List.map_singleton, hfooter]

/-- The scan of a recovered session keeps its records and is stopped by the footer. -/
theorem scan_recoveredText :
    usablePrefix (Lines.lines (recoveredText kept wall s)) = kept.map Lines.stripCr ∧
      stopper (Lines.lines (recoveredText kept wall s)) =
        some (footerText wall (kept.length + 1) s) := by
  rw [lines_recoveredText hkept hne]
  apply run_append
  · intro stripped hstripped
    obtain ⟨line, hline, rfl⟩ := List.mem_map.mp hstripped
    rw [← (hkept line hline).2, usable, usable, readLine_stripCr]
  · rw [trim_footerText]
    exact footerText_ne_nil _ _ _
  · exact usable_footerText _ _ _

/-- The loader reads a recovered session exactly if it can read the footer and keep the
reasons in the records. -/
theorem load_recoveredText (label : String) :
    (Session.loadSession label (String.ofList (recoveredText kept wall s))).isOk = true ↔
      (∀ line ∈ kept, ∀ v, readLine line = .ok v → Session.ReasonsKeepable v) ∧ s.Finite := by
  rw [Session.loadSession_isOk, String.toList_ofList, lines_recoveredText hkept hne]
  simp only [List.forall_mem_append, List.forall_mem_map, List.forall_mem_singleton,
    loadable_footerText]
  refine and_congr_left fun _ => forall₂_congr fun line hline => ?_
  obtain ⟨v, hv, -⟩ := exists_of_usable (hkept line hline).2
  have htrim := trim_ne_nil_of_usable (hkept line hline).2
  have hparse : parse (String.ofList (Lines.trim line)) = .ok v := hv
  simp [Session.Loadable, Lines.trim_stripCr, htrim, hparse, hv]

/-- Recovering twice is refused exactly if the footer can be read. -/
theorem recover_recoveredText (wallNowMs : UInt64) :
    recoverSessionText (String.ofList (recoveredText kept wall s)) wallNowMs =
      .error "session already has a footer" ↔ s.Finite := by
  obtain ⟨-, hstop⟩ := scan_recoveredText hkept hne wall s
  rw [recoverSessionText, String.toList_ofList, scanLines_eq, hstop, Option.any_some,
    ← isFooterLine_footerText wall (kept.length + 1) s]
  cases isFooterLine (footerText wall (kept.length + 1) s) with
  | true => simp
  | false =>
      simp only [Bool.false_eq_true, if_false, iff_false]
      split <;> simp

end Recovered

/-! ## Recovery yields a finalized session -/

/-- What recovery promises of the session it writes. -/
structure Finalized (original out : String) : Prop where
  loads : ∀ label, (Session.loadSession label out).isOk = true
  /-- The text is the longest run of records of the original and one footer. -/
  text : ∃ footer, isFooterLine footer = true ∧ '\n' ∉ footer ∧ out.toList =
    Lines.terminated (usablePrefix (Lines.lines original.toList) ++ [footer])
  /-- No other line is a footer. -/
  records : ∀ line ∈ usablePrefix (Lines.lines original.toList), isFooterLine line = false
  refused : ∀ wallNowMs, recoverSessionText out wallNowMs = .error "session already has a footer"

/-- The values of the records that recovery keeps. -/
def keptRecords (original : String) : List JVal :=
  (usablePrefix (Lines.lines original.toList)).filterMap fun line => (readLine line).toOption

/-- The battery samples among them. -/
def keptSamples (original : String) : List (Sample Binary64) :=
  ((keptRecords original).filter fun v => v.strAt "collector" = some "battery").map sampleOf

/-- The cadence that the last header among them records. -/
def keptInterval (original : String) : UInt64 :=
  ((keptRecords original).filter isHeader).foldl (fun ms v => headerInterval v ms) 1000

theorem interval_foldl {ls : List (List Char)} (hls : ∀ l ∈ ls, usable l = true) (scan : Scan) :
    (ls.foldl Scan.keepLine scan).intervalMs =
      ((ls.filterMap fun line => (readLine line).toOption).filter isHeader).foldl
        (fun ms v => headerInterval v ms) scan.intervalMs := by
  induction ls generalizing scan with
  | nil => rfl
  | cons line ls ih =>
      obtain ⟨v, hv, -⟩ := exists_of_usable (hls line List.mem_cons_self)
      have hkeep : (scan.keepLine line).intervalMs =
          if isHeader v then headerInterval v scan.intervalMs else scan.intervalMs := by
        simp only [Scan.keepLine, hv, Scan.keep]
      rw [List.foldl_cons, ih fun l hl => hls l (List.mem_cons_of_mem line hl), hkeep]
      have hcons : ((line :: ls).filterMap fun line => (readLine line).toOption) =
          v :: ls.filterMap fun line => (readLine line).toOption := by
        simp [hv, Except.toOption]
      rw [hcons, List.filter_cons]
      cases isHeader v <;> rfl

theorem samples_of_usable {ls : List (List Char)} (hls : ∀ l ∈ ls, usable l = true) :
    ls.filterMap batterySample =
      ((ls.filterMap fun line => (readLine line).toOption).filter
        fun v => v.strAt "collector" = some "battery").map sampleOf := by
  induction ls with
  | nil => rfl
  | cons line ls ih =>
      obtain ⟨v, hv, -⟩ := exists_of_usable (hls line List.mem_cons_self)
      have htail := ih fun l hl => hls l (List.mem_cons_of_mem line hl)
      by_cases hbattery : v.strAt "collector" = some "battery"
      · simp [batterySample, hv, Except.toOption, hbattery, htail]
      · simp [batterySample, hv, Except.toOption, hbattery, htail]

theorem summary_scanOf (original : String) :
    (scanOf original).summary = summarize (keptInterval original) (keptSamples original) := by
  have hls : ∀ l ∈ usablePrefix (Lines.lines original.toList), usable l = true :=
    fun _ => usable_of_mem
  rw [Scan.summary, kept_scanOf, samples_of_usable hls, scanOf, interval_foldl hls]
  rfl

/-- A scan with a header has kept it. -/
theorem kept_ne_nil {original : String} (hheader : (scanOf original).hasHeader = true) :
    usablePrefix (Lines.lines original.toList) ≠ [] := by
  intro hnil
  rw [scanOf, hnil] at hheader
  cases hheader

theorem kept_lines (original : String) :
    ∀ line ∈ usablePrefix (Lines.lines original.toList), '\n' ∉ line ∧ usable line = true :=
  fun _ hline => ⟨Lines.not_mem_lines (mem_of_mem_usablePrefix hline), usable_of_mem hline⟩

/-- Recovering a recovered session is refused exactly if its footer can be read. -/
theorem refused_iff {original out : String} {wallNowMs : UInt64}
    (hrecover : recoverSessionText original wallNowMs = .ok out) (later : UInt64) :
    recoverSessionText out later = .error "session already has a footer" ↔
      (scanOf original).summary.Finite := by
  obtain ⟨-, hheader, rfl⟩ := recoverSessionText_eq_ok.mp hrecover
  rw [kept_scanOf]
  exact recover_recoveredText (kept_lines original) (kept_ne_nil hheader) _ _ later

theorem keepable_iff (original : String) :
    (∀ line ∈ usablePrefix (Lines.lines original.toList), ∀ v, readLine line = .ok v →
      Session.ReasonsKeepable v) ↔ ∀ v ∈ keptRecords original, Session.ReasonsKeepable v := by
  constructor
  · intro h v hv
    obtain ⟨line, hline, hread⟩ := List.mem_filterMap.mp hv
    refine h line hline v ?_
    cases hok : readLine line with
    | error e => simp [hok, Except.toOption] at hread
    | ok w => simpa [hok, Except.toOption] using hread
  · intro h line hline v hv
    exact h v (List.mem_filterMap.mpr ⟨line, hline, by simp [hv, Except.toOption]⟩)

/-- Where recovery succeeds, it yields a finalized session exactly if every statistic it
prints of the kept samples is finite and every reason in the kept records can be kept. -/
theorem recovered_finalized_iff {original out : String} {wallNowMs : UInt64}
    (hrecover : recoverSessionText original wallNowMs = .ok out) :
    Finalized original out ↔
      FiniteStatistics (energyMaxGapSecs (keptInterval original).toNat) (keptSamples original) ∧
        ∀ v ∈ keptRecords original, Session.ReasonsKeepable v := by
  have hrefused := refused_iff hrecover
  obtain ⟨-, hheader, rfl⟩ := recoverSessionText_eq_ok.mp hrecover
  have hne := kept_ne_nil hheader
  have hkept := kept_lines original
  rw [kept_scanOf, summary_scanOf] at hrefused ⊢
  rw [← summarize_finite]
  generalize (scanOf original).footerWall wallNowMs = wall at hrefused ⊢
  generalize summarize (keptInterval original) (keptSamples original) = s at hrefused ⊢
  have hrecords := keepable_iff original
  constructor
  · intro hfinal
    obtain ⟨hall, hs⟩ := (load_recoveredText hkept hne wall s "").mp (hfinal.loads "")
    exact ⟨hs, hrecords.mp hall⟩
  · rintro ⟨hs, hall⟩
    refine ⟨fun label => ?_, ?_, fun line hline => ?_, fun later => (hrefused later).mpr hs⟩
    · exact (load_recoveredText hkept hne wall s label).mpr ⟨hrecords.mpr hall, hs⟩
    · have hfooter := isFooterLine_footerText wall
        ((usablePrefix (Lines.lines original.toList)).length + 1) s
      refine ⟨_, hfooter.mpr hs, newline_not_mem_footerText _ _ _, ?_⟩
      rw [String.toList_ofList, recoveredText_eq hne]
    · obtain ⟨v, hv, hfooter, -⟩ := exists_of_usable (hkept line hline).2
      simp only [isFooterLine, hv, hfooter]

/-! ### Two recoveries -/

theorem toOption_readLine (line : List Char) :
    (readLine line).toOption = readText (Lines.trim line) := toOption_parse _

theorem usable_eq_any : usable = fun line =>
    (readText (Lines.trim line)).any fun v => !isFooter v && isRecord v := by
  funext line
  rw [← toOption_readLine, usable]
  cases readLine line <;> rfl

theorem isFooterLine_eq_any : isFooterLine = fun line =>
    (readText (Lines.trim line)).any isFooter := by
  funext line
  rw [← toOption_readLine, isFooterLine]
  cases readLine line <;> rfl

theorem keepLine_eq_elim : Scan.keepLine = fun scan line =>
    (readText (Lines.trim line)).elim scan (scan.keep line) := by
  funext scan line
  rw [← toOption_readLine, Scan.keepLine]
  cases readLine line <;> rfl

/-- A header and two battery records a second apart, with the energy between them. -/
def steadyPower : String :=
  "\x7b\"type\":\"session_header\",\"wall_ms\":5,\"interval_ms\":1000\x7d\n" ++
    "\x7b\"collector\":\"battery\",\"wall_ms\":5,\"mono_ms\":0," ++
    "\"discharge_w\":\x7b\"v\":7.5,\"p\":\"measured\"\x7d\x7d\n" ++
    "\x7b\"collector\":\"battery\",\"wall_ms\":1005,\"mono_ms\":1000," ++
    "\"discharge_w\":\x7b\"v\":10.5,\"p\":\"measured\"\x7d\x7d\n"

theorem recovered_finalized_steady :
    ∃ out, recoverSessionText steadyPower 7 = .ok out ∧ (keptSamples steadyPower).length = 2 ∧
      Finalized steadyPower out := by
  have hscan : (stopper (Lines.lines steadyPower.toList)).any isFooterLine = false ∧
      (scanOf steadyPower).hasHeader = true ∧ (keptSamples steadyPower).length = 2 ∧
      (summarize (keptInterval steadyPower) (keptSamples steadyPower)).Finite ∧
      ∀ v ∈ keptRecords steadyPower, Session.ReasonsKeepable v := by
    have htext : steadyPower.toList = _ :=
      Lines.toList_append_of (Lines.toList_append_of (Lines.toList_append_of
        (Lines.toList_append_of String.toList_ofList String.toList_ofList)
        String.toList_ofList) String.toList_ofList) String.toList_ofList
    simp only [stopper, scanOf, keptInterval, keptSamples, keptRecords, usablePrefix,
      usable_eq_any, isFooterLine_eq_any, keepLine_eq_elim, toOption_readLine, htext]
    decide +kernel
  obtain ⟨hfooter, hheader, hsamples, hfinite, hrecords⟩ := hscan
  have hout : recoverSessionText steadyPower 7 = .ok _ :=
    recoverSessionText_eq_ok.mpr ⟨hfooter, hheader, rfl⟩
  exact ⟨_, hout, hsamples, (recovered_finalized_iff hout).mpr
    ⟨(summarize_finite _ _).mp hfinite, hrecords⟩⟩

/-- A header and one battery record whose power overflows. -/
def infinitePower : String :=
  "\x7b\"type\":\"session_header\",\"wall_ms\":5\x7d\n\x7b\"collector\":\"battery\",\"wall_ms\":5," ++
    "\"mono_ms\":0,\"discharge_w\":\x7b\"v\":1e999,\"p\":\"measured\"\x7d\x7d\n"

/-- Its footer prints the median as `inf`, and a second recovery appends another footer. -/
theorem recovered_not_finalized :
    ∃ out, recoverSessionText infinitePower 7 = .ok out ∧ ¬ Finalized infinitePower out := by
  have hscan : (stopper (Lines.lines infinitePower.toList)).any isFooterLine = false ∧
      (scanOf infinitePower).hasHeader = true ∧
      (scanOf infinitePower).summary.dischargeMedianW = some (Binary64.infinity false) := by
    have htext : infinitePower.toList = _ :=
      Lines.toList_append_of String.toList_ofList String.toList_ofList
    rw [summary_scanOf]
    simp only [stopper, scanOf, keptInterval, keptSamples, keptRecords, usablePrefix,
      usable_eq_any, isFooterLine_eq_any, keepLine_eq_elim, toOption_readLine, htext]
    decide +kernel
  obtain ⟨hfooter, hheader, hmedian⟩ := hscan
  have hout : recoverSessionText infinitePower 7 = .ok _ :=
    recoverSessionText_eq_ok.mpr ⟨hfooter, hheader, rfl⟩
  refine ⟨_, hout, fun hfinal => ?_⟩
  have hfinite := ((refused_iff hout 0).mp (hfinal.refused 0)).median
  rw [hmedian] at hfinite
  exact absurd (hfinite _ rfl) (by decide +kernel)

end PowerForensics.Store
