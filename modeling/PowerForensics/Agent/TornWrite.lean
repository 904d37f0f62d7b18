import PowerForensics.Agent.StoreRecovery
import PowerForensics.Core.JsonExtension

/-! # Recovery of a torn write

A clean session is a header, records and a footer, each an object on a line of its own.
When the writer is cut off, some prefix of its bytes is left. Recovery keeps the records
that are whole in it, and the footer that it writes has the statistics that the live
accumulator had after the battery records among them.
-/

namespace PowerForensics.Store

open Json Stats Monitor

/-! ## The batch statistics are the live ones -/

/-- Four counts are known from the count of each kind. -/
theorem eq_counts {counts : List Nat} {count : DiscontinuityKind → Nat}
    (hlength : counts.length = 4) (hcounts : ∀ kind, counts[kind.index]? = some (count kind)) :
    counts = DiscontinuityKind.all.map count := by
  match counts, hlength with
  | [gap, ahead, behind, back], _ =>
      have hgap := hcounts .samplingGap
      have hahead := hcounts .wallAheadOfMono
      have hbehind := hcounts .monoAheadOfWall
      have hback := hcounts .clockWentBackwards
      simp only [DiscontinuityKind.index, List.getElem?_cons_zero, List.getElem?_cons_succ,
        Option.some.injEq] at hgap hahead hbehind hback
      simp [DiscontinuityKind.all, hgap, hahead, hbehind, hback]

theorem length_modify_kinds (ds : List (Discontinuity Binary64)) (counts : List Nat) :
    (ds.foldl (fun kinds d => kinds.modify d.kind.index (· + 1)) counts).length =
      counts.length := by
  induction ds generalizing counts with
  | nil => rfl
  | cons d ds ih => rw [List.foldl_cons, ih, List.length_modify]

theorem getElem?_countKinds (ds : List (Discontinuity Binary64)) (kind : DiscontinuityKind) :
    (countKinds ds)[kind.index]? = some ((ds.map Discontinuity.kind).count kind) := by
  induction ds using List.reverseRecOn with
  | nil => cases kind <;> rfl
  | append_singleton ds d ih =>
      rw [countKinds, List.foldl_append, List.foldl_cons, List.foldl_nil, ← countKinds,
        List.getElem?_modify, ih, List.map_append, List.count_append, List.map_singleton]
      by_cases hkind : d.kind = kind
      · simp [hkind]
      · have hindex : d.kind.index ≠ kind.index := by rwa [ne_eq, index_injective]
        simp [hkind, hindex]

theorem countKinds_eq (ds : List (Discontinuity Binary64)) :
    countKinds ds = DiscontinuityKind.all.map (ds.map Discontinuity.kind).count :=
  eq_counts (length_modify_kinds ds _) (getElem?_countKinds ds)

/-- The accumulator that has been fed a run of samples at a cadence. -/
def liveStream (intervalMs : UInt64) (samples : List (Sample Binary64)) : EnergyStream Binary64 :=
  EnergyStream.run (energyMaxGapSecs intervalMs.toNat) maxClockSkewSecs samples

/-- The statistics of a summary are those that an accumulator holds. -/
structure Agrees (s : Summary) (stream : EnergyStream Binary64) : Prop where
  discharge : s.discharge = stream.discharge
  charge : s.charge = stream.charge
  kinds : s.kinds = stream.discKinds

theorem summarize_agrees (intervalMs : UInt64) (samples : List (Sample Binary64)) :
    Agrees (summarize intervalMs samples) (liveStream intervalMs samples) := by
  have hfollows := run_follows (energyMaxGapSecs intervalMs.toNat) maxClockSkewSecs samples
  refine ⟨hfollows.discharge.symm, hfollows.charge.symm, ?_⟩
  rw [liveStream, eq_counts (length_discKinds_run _ _ samples) hfollows.kinds]
  exact countKinds_eq _

/-! ## Lines that hold an object -/

/-- An object on a line of its own. -/
structure ObjectLine where
  text : List Char
  value : JVal
  opens : text.head? = some '{'
  closes : text.getLast? = some '}'
  single : '\n' ∉ text
  reads : parse (String.ofList text) = .ok value

namespace ObjectLine

variable (line : ObjectLine)

theorem ne_nil : line.text ≠ [] := by
  intro hnil
  have hopens := line.opens
  rw [hnil] at hopens
  cases hopens

theorem trim_text : Lines.trim line.text = line.text := by
  apply Lines.trim_eq_self
  · intro c hc
    rw [line.opens, Option.some.injEq] at hc
    subst hc
    rfl
  · intro c hc
    rw [line.closes, Option.some.injEq] at hc
    subst hc
    rfl

theorem readLine_text : readLine line.text = .ok line.value := by
  rw [readLine, trim_text, line.reads]

theorem usable_text (hfooter : isFooter line.value = false) (hrecord : isRecord line.value = true) :
    usable line.text = true := by
  simp [usable, readLine_text, hfooter, hrecord]

/-- An object that is cut is read by nobody, trimmed or not. -/
theorem not_read_of_cut {cut : List Char} (hbegins : cut <+: line.text) (hcut : cut ≠ line.text)
    (hopens : cut.head? = some '{') (v : JVal) : parse (String.ofList cut) ≠ .ok v := by
  obtain ⟨extra, hextra⟩ := hbegins
  obtain ⟨cs, rfl⟩ : ∃ cs, cut = '{' :: cs := by
    cases cut with
    | nil => cases hopens
    | cons c cs => exact ⟨cs, by rw [List.head?_cons, Option.some.injEq] at hopens; rw [hopens]⟩
  have hne : extra ≠ [] := by
    rintro rfl
    exact hcut (by simpa using hextra)
  have hlast : ∀ c ∈ extra.getLast?, isBlank c = false := by
    intro c hc
    have hcloses := line.closes
    rw [← hextra, List.getLast?_append, Option.mem_def.mp hc, Option.some_or,
      Option.some.injEq] at hcloses
    subst hcloses
    rfl
  have hreads := line.reads
  rw [parse_eq_ok_iff, String.toList_ofList, ← hextra] at hreads
  rw [ne_eq, parse_eq_ok_iff, String.toList_ofList, readText_of_cut hne hlast hreads]
  simp

/-- Trimming leaves the opening brace where it is. -/
theorem trim_opens {cs : List Char} (hopens : cs.head? = some '{') :
    Lines.trim cs <+: cs ∧ (Lines.trim cs).head? = some '{' := by
  cases cs with
  | nil => cases hopens
  | cons c cs =>
      rw [List.head?_cons, Option.some.injEq] at hopens
      subst hopens
      have hwhite : Lines.isWhitespace '{' = false := rfl
      have hdrop : ('{' :: cs).dropWhile Lines.isWhitespace = '{' :: cs := by simp [hwhite]
      have hbegins : Lines.trim ('{' :: cs) <+: '{' :: cs := by
        rw [Lines.trim, hdrop]
        exact List.rdropWhile_prefix _ _
      refine ⟨hbegins, ?_⟩
      cases htrim : Lines.trim ('{' :: cs) with
      | nil =>
          rw [Lines.trim, hdrop, List.rdropWhile_eq_nil_iff] at htrim
          have := htrim '{' List.mem_cons_self
          rw [hwhite] at this
          cases this
      | cons d ds =>
          rw [htrim] at hbegins
          rw [List.head?_cons, (List.cons_prefix_cons.mp hbegins).1]

/-- What is left of a line that is cut stops the scan, and is no footer. -/
theorem run_cut {cut : List Char} (hbegins : cut <+: line.text) (hcut : cut ≠ line.text) :
    usablePrefix (Lines.lines cut) = [] ∧
      (stopper (Lines.lines cut)).any isFooterLine = false := by
  have hsingle : '\n' ∉ cut := fun h => line.single (hbegins.subset h)
  rw [Lines.lines_unterminated hsingle]
  by_cases hnil : cut = []
  · subst hnil
    exact ⟨rfl, rfl⟩
  · have hopens : cut.head? = some '{' := by
      obtain ⟨extra, hextra⟩ := hbegins
      rw [← line.opens, ← hextra, List.head?_append_of_ne_nil _ hnil]
    obtain ⟨htrim, htrimOpens⟩ := trim_opens hopens
    have hne : Lines.trim cut ≠ [] := by
      intro h
      rw [h] at htrimOpens
      cases htrimOpens
    have htrimCut : Lines.trim cut ≠ line.text := by
      intro h
      exact hcut (hbegins.eq_of_length_le (h ▸ htrim.length_le))
    have hread : ∀ v, readLine cut ≠ .ok v :=
      line.not_read_of_cut (htrim.trans hbegins) htrimCut htrimOpens
    have husable : usable cut = false := by
      unfold usable
      split
      next v hv => exact absurd hv (hread v)
      · rfl
    have hfooter : isFooterLine cut = false := by
      unfold isFooterLine
      split
      next v hv => exact absurd hv (hread v)
      · rfl
    obtain ⟨hrun, hstop⟩ := run_stopped hne husable []
    rw [if_neg hnil, hrun, hstop]
    exact ⟨rfl, hfooter⟩

end ObjectLine

/-! ## A prefix of the lines -/

/-- The number of the first texts that are whole in some bytes, which start with what is
before them. -/
def wholeLines (before : List Char) (bytes : List UInt8) : List (List Char) → Nat
  | [] => 0
  | text :: texts =>
      if Utf8.encode (before ++ text) <+: bytes then
        wholeLines (before ++ text ++ ['\n']) bytes texts + 1
      else 0

/-- Nothing is whole behind what is longer than the bytes. -/
theorem wholeLines_short {before cut : List Char} (hshort : cut.length < before.length)
    (texts : List (List Char)) : wholeLines before (Utf8.encode cut) texts = 0 := by
  cases texts with
  | nil => rfl
  | cons text texts =>
      rw [wholeLines, if_neg]
      rw [Utf8.encode_isPrefix]
      intro hbegins
      have hlength := hbegins.length_le
      rw [List.length_append] at hlength
      omega

/-- The scan keeps the lines that are whole in a prefix, and no footer stops it. -/
theorem run_begun {ls : List ObjectLine} (hls : ∀ l ∈ ls, usable l.text = true)
    (last : ObjectLine) (before : List Char) {cut : List Char}
    (hbegins : cut <+: Lines.terminated (ls.map ObjectLine.text) ++ last.text)
    (hcut : cut ≠ Lines.terminated (ls.map ObjectLine.text) ++ last.text) :
    usablePrefix (Lines.lines cut) = (ls.map ObjectLine.text).take
        (wholeLines before (Utf8.encode (before ++ cut)) (ls.map ObjectLine.text)) ∧
      (stopper (Lines.lines cut)).any isFooterLine = false := by
  induction ls generalizing before cut with
  | nil => exact last.run_cut hbegins hcut
  | cons line ls ih =>
      rw [List.map_cons, Lines.terminated_cons, List.append_assoc, List.cons_append]
        at hbegins hcut
      have hwhole : Utf8.encode (before ++ line.text) <+: Utf8.encode (before ++ cut) ↔
          line.text <+: cut := by
        rw [Utf8.encode_isPrefix, List.prefix_append_right_inj]
      rw [List.map_cons, wholeLines]
      by_cases htext : line.text <+: cut
      · rw [if_pos (hwhole.mpr htext), List.take_succ_cons]
        obtain ⟨rest, rfl⟩ := htext
        rw [List.prefix_append_right_inj] at hbegins
        have husable := hls line List.mem_cons_self
        have hrun := run_usable (trim_ne_nil_of_usable husable) husable
        cases rest with
        | nil =>
            -- The line is whole, only its line feed is missing.
            have hlines : Lines.lines line.text = line.text :: Lines.lines [] := by
              rw [Lines.lines_unterminated line.single, if_neg line.ne_nil, Lines.lines_nil]
            obtain ⟨hkept, hstop⟩ := hrun (Lines.lines [])
            rw [List.append_nil, hlines, hkept, hstop, wholeLines_short (by simp)]
            exact ⟨rfl, rfl⟩
        | cons c rest =>
            obtain ⟨rfl, hrest⟩ := List.cons_prefix_cons.mp hbegins
            have hstrip := Lines.stripCr_of_trim line.trim_text
            obtain ⟨hkept, hstop⟩ := hrun (Lines.lines rest)
            have hbefore : before ++ (line.text ++ '\n' :: rest) =
                before ++ line.text ++ ['\n'] ++ rest := by simp
            have htail := ih (fun l hl => hls l (List.mem_cons_of_mem line hl))
              (before ++ line.text ++ ['\n']) hrest fun h => hcut (by rw [h])
            rw [Lines.lines_append_newline line.single, hstrip, hkept, hstop, hbefore, htail.1]
            exact ⟨rfl, htail.2⟩
      · rw [if_neg (fun h => htext (hwhole.mp h)), List.take_zero]
        have hline : cut <+: line.text :=
          (List.prefix_or_prefix_of_prefix hbegins (List.prefix_append _ _)).resolve_right htext
        exact line.run_cut hline fun h => htext (by rw [h])

/-! ## Clean sessions -/

/-- A header and the cadence that it records. -/
structure HeaderLine extends ObjectLine where
  intervalMs : UInt64
  positive : 0 < intervalMs
  header : isHeader value = true
  noSample : value.strAt "collector" = none
  cadence : value.numAt "interval_ms" = some (Session.ofU64 intervalMs)

def isBattery (v : JVal) : Bool := v.strAt "collector" = some "battery"

/-- A sample or an event. A battery sample carries the clocks of its reading. -/
structure RecordLine extends ObjectLine where
  stamp : ClockStamp
  record : (value.strAt "collector").isSome ∨ recordType value = "event"
  noHeader : isHeader value = false
  noFooter : isFooter value = false
  clocks : isBattery value → value.numAt "mono_ms" = some (Session.ofU64 stamp.monoMillis) ∧
    value.numAt "wall_ms" = some (Session.ofU64 stamp.wallMillis)

structure CleanSession where
  header : HeaderLine
  records : List RecordLine
  footer : ObjectLine
  finalized : isFooter footer.value = true

/-- What the monitor feeds the accumulator for a battery record. -/
def RecordLine.sample (r : RecordLine) : Sample Binary64 where
  mono := Session.seconds r.stamp.monoMillis
  wall := Session.seconds r.stamp.wallMillis
  discharge := r.value.numIn "discharge_w"
  charge := r.value.numIn "charge_w"

/-- The samples of the battery records in a run. -/
def batterySamples (records : List RecordLine) : List (Sample Binary64) :=
  (records.filter fun r => isBattery r.value).map RecordLine.sample

namespace CleanSession

variable (session : CleanSession)

/-- The header and the records. -/
def lines : List ObjectLine :=
  session.header.toObjectLine :: session.records.map RecordLine.toObjectLine

/-- The text up to the end of the footer, without its line feed. -/
def upToFooter : List Char :=
  Lines.terminated (session.lines.map ObjectLine.text) ++ session.footer.text

def text : List Char := session.upToFooter ++ ['\n']

/-- The records that are whole in a prefix of the session. -/
def complete (bytes : List UInt8) : List RecordLine :=
  session.records.take (wholeLines (session.header.text ++ ['\n']) bytes
    (session.records.map fun r => r.text))

/-- A prefix that has the whole header line and not the whole footer. -/
structure Torn (bytes : List UInt8) : Prop where
  isPrefix : bytes <+: Utf8.encode session.text
  header : Utf8.encode session.header.text <+: bytes
  footer : ¬ Utf8.encode session.upToFooter <+: bytes

end CleanSession

/-! ## Recovering a prefix -/

theorem HeaderLine.usable_text (header : HeaderLine) : usable header.text = true := by
  have htype : recordType header.value = "session_header" := of_decide_eq_true header.header
  apply header.toObjectLine.usable_text
  · simp [isFooter, htype]
  · simp [isRecord, header.header]

theorem RecordLine.usable_text (r : RecordLine) : usable r.text = true := by
  apply r.toObjectLine.usable_text r.noFooter
  rcases r.record with h | h <;> simp [isRecord, h]

/-- Reading the clocks of a battery record gives back what the monitor had. -/
theorem RecordLine.sampleOf_value (r : RecordLine) (hbattery : isBattery r.value = true) :
    sampleOf r.value = r.sample := by
  obtain ⟨hmono, hwall⟩ := r.clocks hbattery
  simp [sampleOf, RecordLine.sample, hmono, hwall, Session.seconds]

/-- The cadence read from the header gives the gap that the monitor uses. -/
theorem HeaderLine.maxGap (header : HeaderLine) :
    energyMaxGapSecs (headerInterval header.value 1000).toNat =
      energyMaxGapSecs header.intervalMs.toNat := by
  have hpos : 0 < header.intervalMs.toNat := UInt64.lt_iff_toNat_lt.mp header.positive
  have hone : (Session.ofU64 header.intervalMs) ≥ 1.0 := Binary64.one_le_ofNat hpos
  have hinterval : headerInterval header.value 1000 =
      Session.asU64 (Session.ofU64 header.intervalMs) := by
    simp only [headerInterval, header.cadence, hone, if_true]
  have hnat : (Session.asU64 (Session.ofU64 header.intervalMs)).toNat =
      (Binary64.ofNat header.intervalMs.toNat).toUnsigned 64 := by
    rw [Session.asU64, UInt64.toNat_ofNat_of_lt' (Binary64.toUnsigned_lt 64 _)]
    rfl
  have hround : ((headerInterval header.value 1000).toNat : Binary64) =
      (header.intervalMs.toNat : Binary64) := by
    rw [hinterval, hnat]
    exact Binary64.ofNat_toUnsigned_ofNat header.intervalMs.toNat_lt
  rw [energyMaxGapSecs, hround, energyMaxGapSecs]

namespace CleanSession

variable {session : CleanSession} {bytes : List UInt8} {cut : List Char}

theorem usable_lines : ∀ l ∈ session.lines, usable l.text = true := by
  intro l hl
  rw [lines, List.mem_cons, List.mem_map] at hl
  rcases hl with rfl | ⟨r, -, rfl⟩
  · exact session.header.usable_text
  · exact r.usable_text

/-- The scan of a torn session keeps the header and the records that are whole. -/
theorem run_torn (htorn : session.Torn bytes) (hcut : Utf8.decode bytes = some cut) :
    usablePrefix (Lines.lines cut) =
        session.header.text :: (session.complete bytes).map (fun r => r.text) ∧
      (stopper (Lines.lines cut)).any isFooterLine = false := by
  obtain rfl := Utf8.encode_of_decode hcut
  have hbegins := Utf8.encode_isPrefix.mp htorn.isPrefix
  have hheader := htorn.header
  have hfooter : ¬ session.upToFooter <+: cut := fun h => htorn.footer (Utf8.encode_isPrefix.mpr h)
  have hbefore : cut <+: session.upToFooter :=
    (List.prefix_or_prefix_of_prefix hbegins (List.prefix_append _ _)).resolve_right hfooter
  have hproper : cut ≠ session.upToFooter := fun h => hfooter (by rw [h])
  have hrun := run_begun usable_lines session.footer [] hbefore hproper
  have htexts : session.lines.map ObjectLine.text =
      session.header.text :: session.records.map fun r => r.text := by
    simp [lines, Function.comp_def]
  rw [htexts, List.nil_append, wholeLines, List.nil_append, if_pos hheader,
    List.take_succ_cons, ← List.map_take] at hrun
  exact hrun

theorem hasHeader_foldl (ls : List (List Char)) {scan : Scan} (hscan : scan.hasHeader = true) :
    (ls.foldl Scan.keepLine scan).hasHeader = true := by
  induction ls generalizing scan with
  | nil => exact hscan
  | cons line ls ih =>
      rw [List.foldl_cons]
      apply ih
      unfold Scan.keepLine
      split
      · simp [Scan.keep, hscan]
      · exact hscan

/-- What recovery reads in a torn session. -/
theorem keptRecords_torn (htorn : session.Torn bytes) (hcut : Utf8.decode bytes = some cut) :
    keptRecords (String.ofList cut) =
      session.header.value :: (session.complete bytes).map fun r => r.value := by
  have hvalues : ∀ records : List RecordLine,
      (records.map fun r => r.text).filterMap (fun line => (readLine line).toOption) =
        records.map fun r => r.value := by
    intro records
    induction records with
    | nil => rfl
    | cons r records ih =>
        have hread : (readLine r.text).toOption = some r.value := by
          rw [r.readLine_text]
          rfl
        simp only [List.map_cons, List.filterMap_cons, hread, ih]
  have hread : (readLine session.header.text).toOption = some session.header.value := by
    rw [session.header.readLine_text]
    rfl
  rw [keptRecords, String.toList_ofList, (run_torn htorn hcut).1]
  simp only [List.filterMap_cons, hread, hvalues]

theorem keptInterval_torn (htorn : session.Torn bytes) (hcut : Utf8.decode bytes = some cut) :
    keptInterval (String.ofList cut) = headerInterval session.header.value 1000 := by
  have hnone : ((session.complete bytes).map fun r => r.value).filter isHeader = [] := by
    rw [List.filter_eq_nil_iff]
    intro v hv
    obtain ⟨r, -, rfl⟩ := List.mem_map.mp hv
    simp [r.noHeader]
  rw [keptInterval, keptRecords_torn htorn hcut, List.filter_cons_of_pos session.header.header,
    hnone]
  rfl

theorem keptSamples_torn (htorn : session.Torn bytes) (hcut : Utf8.decode bytes = some cut) :
    keptSamples (String.ofList cut) = batterySamples (session.complete bytes) := by
  have hheader : ¬ session.header.value.strAt "collector" = some "battery" := by
    simp [session.header.noSample]
  rw [keptSamples, keptRecords_torn htorn hcut, List.filter_cons_of_neg (by simpa using hheader),
    List.filter_map, List.map_map, batterySamples]
  apply List.map_congr_left
  intro r hr
  exact r.sampleOf_value (List.mem_filter.mp hr).2

end CleanSession

/-- The object that a text holds, if it holds one. -/
def ObjectLine.ofText (text : List Char) (hopens : text.head? = some '{')
    (hcloses : text.getLast? = some '}') (hsingle : '\n' ∉ text)
    (hreads : (parse (String.ofList text)).isOk = true) : ObjectLine where
  text := text
  value := (parse (String.ofList text)).toOption.getD .null
  opens := hopens
  closes := hcloses
  single := hsingle
  reads := by
    obtain ⟨v, hv⟩ := (Session.exists_eq_ok _).mpr hreads
    rw [hv]
    rfl

/-- What a text holds, if it holds one value. -/
def heldValue (text : List Char) : JVal := (parse (String.ofList text)).toOption.getD .null

/-- A text is one line that holds an object. -/
def HoldsObject (text : List Char) : Prop :=
  text.head? = some '{' ∧ text.getLast? = some '}' ∧ '\n' ∉ text ∧
    (parse (String.ofList text)).isOk = true

instance (text : List Char) : Decidable (HoldsObject text) := by
  unfold HoldsObject
  infer_instance

theorem heldValue_eq (text : List Char) : heldValue text = (readText text).getD .null := by
  rw [heldValue, toOption_parse]

theorem holdsObject_iff (text : List Char) : HoldsObject text ↔
    text.head? = some '{' ∧ text.getLast? = some '}' ∧ '\n' ∉ text ∧
      (readText text).isSome = true := by
  rw [HoldsObject, ← toOption_parse]
  cases parse (String.ofList text) <;> rfl

def HoldsObject.line {text : List Char} (h : HoldsObject text) : ObjectLine :=
  .ofText text h.1 h.2.1 h.2.2.1 h.2.2.2

/-- A collector's record, by what its text holds. -/
def RecordLine.ofText {text : List Char} (h : HoldsObject text) (stamp : ClockStamp)
    (hcollector : ((heldValue text).strAt "collector").isSome = true)
    (hheader : isHeader (heldValue text) = false) (hfooter : isFooter (heldValue text) = false)
    (hmono : (heldValue text).numAt "mono_ms" = some (Session.ofU64 stamp.monoMillis))
    (hwall : (heldValue text).numAt "wall_ms" = some (Session.ofU64 stamp.wallMillis)) :
    RecordLine where
  toObjectLine := h.line
  stamp := stamp
  record := Or.inl hcollector
  noHeader := hheader
  noFooter := hfooter
  clocks := fun _ => ⟨hmono, hwall⟩

def sampleHeaderText : List Char :=
  "\x7b\"type\":\"session_header\",\"wall_ms\":5,\"interval_ms\":2000\x7d".toList

def sampleRecordText : List Char :=
  ("\x7b\"collector\":\"battery\",\"wall_ms\":9,\"mono_ms\":4," ++
    "\"discharge_w\":\x7b\"v\":5\x7d\x7d").toList

def sampleFooterText : List Char := "\x7b\"type\":\"session_footer\"\x7d".toList

/-- What the three lines hold. -/
theorem sampleTexts_held :
    (HoldsObject sampleHeaderText ∧ isHeader (heldValue sampleHeaderText) = true ∧
      (heldValue sampleHeaderText).strAt "collector" = none ∧
      (heldValue sampleHeaderText).numAt "interval_ms" = some (Session.ofU64 2000)) ∧
    (HoldsObject sampleRecordText ∧
      ((heldValue sampleRecordText).strAt "collector").isSome = true ∧
      isHeader (heldValue sampleRecordText) = false ∧
      isFooter (heldValue sampleRecordText) = false ∧
      (heldValue sampleRecordText).numAt "mono_ms" =
        some (Session.ofU64 (⟨9, 4⟩ : ClockStamp).monoMillis) ∧
      (heldValue sampleRecordText).numAt "wall_ms" =
        some (Session.ofU64 (⟨9, 4⟩ : ClockStamp).wallMillis)) ∧
    (HoldsObject sampleFooterText ∧ isFooter (heldValue sampleFooterText) = true) := by
  have hheader : sampleHeaderText = _ := String.toList_ofList
  have hrecord : sampleRecordText = _ :=
    Lines.toList_append_of String.toList_ofList String.toList_ofList
  have hfooter : sampleFooterText = _ := String.toList_ofList
  simp only [holdsObject_iff, heldValue_eq]
  rw [hheader, hrecord, hfooter]
  decide +kernel

theorem sampleHeaderText_held : HoldsObject sampleHeaderText ∧
    isHeader (heldValue sampleHeaderText) = true ∧
    (heldValue sampleHeaderText).strAt "collector" = none ∧
    (heldValue sampleHeaderText).numAt "interval_ms" = some (Session.ofU64 2000) :=
  sampleTexts_held.1

def sampleHeader : HeaderLine where
  toObjectLine := sampleHeaderText_held.1.line
  intervalMs := 2000
  positive := by decide
  header := sampleHeaderText_held.2.1
  noSample := sampleHeaderText_held.2.2.1
  cadence := sampleHeaderText_held.2.2.2

theorem sampleRecordText_held : HoldsObject sampleRecordText ∧
    ((heldValue sampleRecordText).strAt "collector").isSome = true ∧
    isHeader (heldValue sampleRecordText) = false ∧
    isFooter (heldValue sampleRecordText) = false ∧
    (heldValue sampleRecordText).numAt "mono_ms" =
      some (Session.ofU64 (⟨9, 4⟩ : ClockStamp).monoMillis) ∧
    (heldValue sampleRecordText).numAt "wall_ms" =
      some (Session.ofU64 (⟨9, 4⟩ : ClockStamp).wallMillis) :=
  sampleTexts_held.2.1

def sampleRecord : RecordLine :=
  .ofText sampleRecordText_held.1 ⟨9, 4⟩ sampleRecordText_held.2.1 sampleRecordText_held.2.2.1
    sampleRecordText_held.2.2.2.1 sampleRecordText_held.2.2.2.2.1
    sampleRecordText_held.2.2.2.2.2

theorem sampleFooterText_held : HoldsObject sampleFooterText ∧
    isFooter (heldValue sampleFooterText) = true := sampleTexts_held.2.2

def sampleSession : CleanSession where
  header := sampleHeader
  records := [sampleRecord, sampleRecord]
  footer := sampleFooterText_held.1.line
  finalized := sampleFooterText_held.2

/-- The session up to somewhere in its second record. -/
def sampleCut : List Char := sampleSession.text.take 150

end PowerForensics.Store
