import PowerForensics.Binary64.Finite
import PowerForensics.Binary64.Quotient
import PowerForensics.Core.Capture
import PowerForensics.Core.JsonText

/-! # Saved baselines

A baseline is written as one JSON object, with its label escaped by hand and its numbers formatted
with a fixed number of places, and is read back by the JSON parser. It survives if its label needs
no other escapes, its numbers are finite, which the processor's is not where nothing is known of
it, and its count is a number of binary64.
-/

namespace PowerForensics.Analysis

open Stats Session Json

/-! ## Model -/

structure Baseline where
  label : String
  wallMs : UInt64
  n : Nat
  median : Binary64
  p10 : Binary64
  p90 : Binary64
  cpuMedian : Binary64

/-- The known utility of the processor. -/
def utilities (s : SessionData) : List Binary64 := s.cpu.filterMap fun p => p.utility.val

def baselineOf (label : String) (s : SessionData) : Option Baseline := do
  let sum ← PowerSummary.of (discharges s)
  some
    { label
      wallMs := 0
      n := sum.n
      median := sum.median
      p10 := sum.p10
      p90 := sum.p90
      cpuMedian := (Stats.median (utilities s)).getD .nan }

/-- The three characters of a label that are escaped. -/
def escChar (c : Char) : List Char :=
  if c = '"' then ['\\', '"']
  else if c = '\\' then ['\\', '\\']
  else if c = '\n' then ['\\', 'n']
  else [c]

def esc (s : String) : List Char := s.toList.flatMap escChar

def baselineToJson (b : Baseline) : String :=
  .ofList <| objectText
    [("label", '"' :: (esc b.label ++ ['"'])), ("wall_ms", Nat.toDigits 10 b.wallMs.toNat),
      ("n", Nat.toDigits 10 b.n), ("median_w", b.median.fixed 3), ("p10_w", b.p10.fixed 3),
      ("p90_w", b.p90.fixed 3), ("cpu_median_pct", b.cpuMedian.fixed 2)]

def baselineFromJson (v : JVal) : Option Baseline := do
  let label ← (← v.get "label").asStr
  let wallMs ← (← v.get "wall_ms").num?
  let n ← (← v.get "n").num?
  let median ← (← v.get "median_w").num?
  let p10 ← (← v.get "p10_w").num?
  let p90 ← (← v.get "p90_w").num?
  let cpuMedian ← (← v.get "cpu_median_pct").num?
  some
    { label
      wallMs := .ofNat (wallMs.toUnsigned 64)
      n := n.toUnsigned 64
      median
      p10
      p90
      cpuMedian }

/-! ## Labels -/

/-- Characters that may stand in a JSON string once the three are escaped. -/
def PlainLabel (s : String) : Prop := ∀ c ∈ s.toList, c = '\n' ∨ 0x20 ≤ c.toNat

theorem escChar_eq {c : Char} (hc : c = '\n' ∨ 0x20 ≤ c.toNat) : escChar c = escapeChar c := by
  have hreturn : c = '\r' → ¬(c = '\n' ∨ 0x20 ≤ c.toNat) := by
    rintro rfl
    decide
  have htab : c = '\t' → ¬(c = '\n' ∨ 0x20 ≤ c.toNat) := by
    rintro rfl
    decide
  rw [escChar, escapeChar]
  split
  · rfl
  split
  · rfl
  split
  · rfl
  next hfeed =>
    rw [if_neg fun h => hreturn h hc, if_neg fun h => htab h hc,
      if_neg (Nat.not_lt.mpr (hc.resolve_left hfeed))]

theorem esc_eq_escapeJson {s : String} (hs : PlainLabel s) : esc s = escapeJson s := by
  rw [esc, escapeJson]
  exact List.flatMap_congr fun c hc => escChar_eq (hs c hc)

/-- A string is not read past a control character. -/
theorem readBody_esc {cs : List Char} (hcs : ¬∀ c ∈ cs, c = '\n' ∨ 0x20 ≤ c.toNat)
    (rest : List Char) : readBody (cs.flatMap escChar ++ rest) = none := by
  induction cs with
  | nil => exact absurd (List.forall_mem_nil _) hcs
  | cons c cs ih =>
      rw [List.flatMap_cons, List.append_assoc]
      by_cases hc : c = '\n' ∨ 0x20 ≤ c.toNat
      · have htail : ¬∀ d ∈ cs, d = '\n' ∨ 0x20 ≤ d.toNat :=
          fun h => hcs (List.forall_mem_cons.mpr ⟨hc, h⟩)
        rw [escChar_eq hc, readBody_escapeChar, ih htail, Option.map_none]
      · obtain ⟨hfeed, hlow⟩ := not_or.mp hc
        have hquote : c ≠ '"' := by
          rintro rfl
          exact hlow (by decide)
        have hslash : c ≠ '\\' := by
          rintro rfl
          exact hlow (by decide)
        rw [escChar, if_neg hquote, if_neg hslash, if_neg hfeed, List.singleton_append,
          readBody_item hquote, readItem_raw hslash, if_pos (Nat.not_le.mp hlow),
          Option.bind_none]

section Texts

variable {levels : Nat}

/-- A label is read back exactly if it is plain. -/
theorem reads_label (s : String) :
    Reads (valueReader (levels + 1)) ('"' :: (esc s ++ ['"'])) (PlainLabel s) where
  takes hs := by
    rw [esc_eq_escapeJson hs]
    exact ⟨_, takes_quoted s⟩
  refuses hs rest := by
    have hbody := readBody_esc hs ('"' :: rest)
    rw [valueReader_run, List.cons_append, skipBlanks_cons (by decide), List.append_assoc]
    simp [readHere, esc, hbody]

end Texts

/-! ## Reading back -/

/-- What is read back agrees up to the printed places; what is unknown stays so. -/
structure Kept (b b' : Baseline) : Prop where
  label : b'.label = b.label
  n : b'.n = b.n
  median : b'.median = b.median.toPlaces 3
  p10 : b'.p10 = b.p10.toPlaces 3
  p90 : b'.p90 = b.p90.toPlaces 3
  cpuMedian : if b.cpuMedian.isNaN then b'.cpuMedian.isNaN
    else b'.cpuMedian = b.cpuMedian.toPlaces 2

def Survives (b : Baseline) : Prop :=
  ∃ v b', Json.parse (baselineToJson b) = .ok v ∧ baselineFromJson v = some b' ∧ Kept b b'

/-- A label without raw control characters and numbers with digits. -/
structure Printable (b : Baseline) : Prop where
  label : PlainLabel b.label
  median : b.median.isFinite
  p10 : b.p10.isFinite
  p90 : b.p90.isFinite
  cpuMedian : b.cpuMedian.isFinite

/-- A count that is the same after it has been a number of binary64. -/
def Countable (n : Nat) : Prop := (Binary64.ofNat n).toUnsigned 64 = n

def baselineValue (b : Baseline) : JVal :=
  .obj [("label", .str b.label), ("wall_ms", .num (.ofNat b.wallMs.toNat)),
    ("n", .num (.ofNat b.n)), ("median_w", .num (b.median.toPlaces 3)),
    ("p10_w", .num (b.p10.toPlaces 3)), ("p90_w", .num (b.p90.toPlaces 3)),
    ("cpu_median_pct", .num (b.cpuMedian.toPlaces 2))]

theorem parse_of_printable {b : Baseline} (hb : Printable b) :
    Json.parse (baselineToJson b) = .ok (baselineValue b) := by
  apply parse_of_takes
  rw [baselineToJson, String.toList_ofList, esc_eq_escapeJson hb.label]
  refine takes_objectText
    [("label", quoted b.label, .str b.label),
      ("wall_ms", Nat.toDigits 10 b.wallMs.toNat, .num (.ofNat b.wallMs.toNat)),
      ("n", Nat.toDigits 10 b.n, .num (.ofNat b.n)),
      ("median_w", b.median.fixed 3, .num (b.median.toPlaces 3)),
      ("p10_w", b.p10.fixed 3, .num (b.p10.toPlaces 3)),
      ("p90_w", b.p90.fixed 3, .num (b.p90.toPlaces 3)),
      ("cpu_median_pct", b.cpuMedian.fixed 2, .num (b.cpuMedian.toPlaces 2))] ?_
  simp only [List.forall_mem_cons]
  exact ⟨takes_quoted _, takes_digits _, takes_digits _,
    takes_number (Binary64.denotes_fixed 3 hb.median),
    takes_number (Binary64.denotes_fixed 3 hb.p10),
    takes_number (Binary64.denotes_fixed 3 hb.p90),
    takes_number (Binary64.denotes_fixed 2 hb.cpuMedian), by simp⟩

theorem not_parse_of_not_printable {b : Baseline} (hb : ¬Printable b) (v : JVal) :
    Json.parse (baselineToJson b) ≠ .ok v := by
  refine not_parse_of_refuses ((Reads.object _ [PlainLabel b.label, True, True, b.median.isFinite,
    b.p10.isFinite, b.p90.isFinite, b.cpuMedian.isFinite] ?_).refuses fun h => hb ?_) v
  · exact .cons (reads_label _) (.cons (.of_takes (takes_digits _))
      (.cons (.of_takes (takes_digits _)) (.cons (reads_fixed 3 _) (.cons (reads_fixed 3 _)
        (.cons (reads_fixed 3 _) (.cons (reads_fixed 2 _) .nil))))))
  · simp only [List.forall_mem_cons] at h
    obtain ⟨hlabel, -, -, hmedian, hp10, hp90, hcpu, -⟩ := h
    exact ⟨hlabel, hmedian, hp10, hp90, hcpu⟩

/-- What the fields are read as. -/
theorem baselineFromJson_value (b : Baseline) : baselineFromJson (baselineValue b) =
    some ⟨b.label, .ofNat ((Binary64.ofNat b.wallMs.toNat).toUnsigned 64),
      (Binary64.ofNat b.n).toUnsigned 64, b.median.toPlaces 3, b.p10.toPlaces 3,
      b.p90.toPlaces 3, b.cpuMedian.toPlaces 2⟩ := by
  simp [baselineFromJson, baselineValue, get_obj_cons, JVal.asStr, JVal.num?]

theorem survives_iff_printable (b : Baseline) : Survives b ↔ Printable b ∧ Countable b.n := by
  constructor
  · rintro ⟨v, b', hparse, hread, hkept⟩
    have hb : Printable b := by
      by_contra hnot
      exact not_parse_of_not_printable hnot v hparse
    rw [parse_of_printable hb] at hparse
    obtain rfl := Except.ok.inj hparse
    rw [baselineFromJson_value, Option.some.injEq] at hread
    subst hread
    have hn := hkept.n
    dsimp only at hn
    exact ⟨hb, hn⟩
  · rintro ⟨hb, hn⟩
    rw [Countable] at hn
    refine ⟨_, _, parse_of_printable hb, baselineFromJson_value b, ?_⟩
    rw [hn]
    refine ⟨rfl, rfl, rfl, rfl, rfl, ?_⟩
    rw [(Binary64.fields_of_finite hb.cpuMedian).1, if_neg Bool.false_ne_true]

/-! ## Baselines of a session -/

/-- A baseline has the percentiles of the known discharge. -/
theorem baselineOf_eq_some {label : String} {s : SessionData} {b : Baseline}
    (hb : baselineOf label s = some b) :
    b.label = label ∧ b.n = (discharges s).length ∧
      percentileSorted (discharges s) 50.0 = some b.median ∧
      percentileSorted (discharges s) 10.0 = some b.p10 ∧
      percentileSorted (discharges s) 90.0 = some b.p90 ∧
      b.cpuMedian = (Stats.median (utilities s)).getD .nan := by
  simp only [baselineOf, PowerSummary.of, Option.bind_eq_bind, Option.bind_eq_some_iff] at hb
  obtain ⟨sum, hsum, hb⟩ := hb
  split at hsum
  · cases hsum
  · simp only [Option.bind_eq_some_iff] at hsum
    obtain ⟨median, hmedian, p10, hp10, p90, hp90, mean, -, hsum⟩ := hsum
    obtain rfl := Option.some.inj hsum
    obtain rfl := Option.some.inj hb
    exact ⟨rfl, rfl, hmedian, hp10, hp90, rfl⟩

theorem exists_baselineOf (label : String) {s : SessionData} (hs : discharges s ≠ []) :
    ∃ b, baselineOf label s = some b := by
  obtain ⟨median, hmedian⟩ :=
    exists_percentileSorted hs (p := 50.0) (by decide +kernel)
  obtain ⟨p10, hp10⟩ := exists_percentileSorted hs (p := 10.0) (by decide +kernel)
  obtain ⟨p90, hp90⟩ := exists_percentileSorted hs (p := 90.0) (by decide +kernel)
  rw [baselineOf, PowerSummary.of, if_neg hs, hmedian, hp10, hp90, Experiment.mean, if_neg hs]
  exact ⟨_, rfl⟩

/-- A label without raw control characters, and a session whose percentiles and count can be
printed and in which something is known of the processor. -/
structure Saveable (label : String) (s : SessionData) : Prop where
  label : PlainLabel label
  discharge : ∀ p ∈ [(50.0 : Binary64), 10.0, 90.0],
    ∀ v ∈ percentileSorted (discharges s) p, v.isFinite
  cpu : ∃ u, Stats.median (utilities s) = some u ∧ u.isFinite
  n : Countable (discharges s).length

/-- Every baseline can be read back exactly if the session has no discharge, or the label is plain
and the numbers have digits. -/
theorem baseline_survives_iff (label : String) (s : SessionData) :
    (∀ b, baselineOf label s = some b → Survives b) ↔ (discharges s ≠ [] → Saveable label s) := by
  constructor
  · intro h hs
    obtain ⟨b, hb⟩ := exists_baselineOf label hs
    obtain ⟨hprintable, hcountable⟩ := (survives_iff_printable b).mp (h b hb)
    obtain ⟨rfl, hn, hmedian, hp10, hp90, hcpu⟩ := baselineOf_eq_some hb
    refine ⟨hprintable.label, ?_, ?_, hn ▸ hcountable⟩
    · simp only [List.forall_mem_cons, hmedian, hp10, hp90, Option.mem_some_iff, forall_eq']
      exact ⟨hprintable.median, hprintable.p10, hprintable.p90, by simp⟩
    · have hfinite := hprintable.cpuMedian
      rw [hcpu] at hfinite
      cases hmedian : Stats.median (utilities s) with
      | none =>
          rw [hmedian] at hfinite
          exact absurd hfinite (by decide)
      | some u =>
          rw [hmedian] at hfinite
          exact ⟨u, rfl, hfinite⟩
  · intro h b hb
    obtain ⟨rfl, hn, hmedian, hp10, hp90, hcpu⟩ := baselineOf_eq_some hb
    have hs : discharges s ≠ [] := by
      intro hnil
      rw [hnil] at hmedian
      cases hmedian
    obtain ⟨hlabel, hdischarge, ⟨u, hu, hfinite⟩, hcountable⟩ := h hs
    simp only [List.forall_mem_cons, hmedian, hp10, hp90, Option.mem_some_iff, forall_eq']
      at hdischarge
    obtain ⟨hmedian, hp10, hp90, -⟩ := hdischarge
    refine (survives_iff_printable b).mpr ⟨⟨hlabel, hmedian, hp10, hp90, ?_⟩, hn ▸ hcountable⟩
    rw [hcpu, hu]
    exact hfinite

/-- A session in which nothing is known of the processor. -/
def withoutCpu : SessionData :=
  { (default : SessionData) with
    battery := [{ (default : BatteryPoint) with discharge := .measured 5.0 "battery" default }] }

/-- The baseline is written with a number that is none. -/
theorem baseline_without_cpu :
    ¬∀ b, baselineOf "base" withoutCpu = some b → Survives b := by
  intro h
  obtain ⟨b, hb⟩ := exists_baselineOf "base" (s := withoutCpu) (by decide)
  obtain ⟨v, -, hparse, -⟩ := h b hb
  obtain ⟨-, -, -, -, -, hcpu⟩ := baselineOf_eq_some hb
  refine not_parse_of_not_printable (fun hprintable => ?_) v hparse
  have hfinite := hprintable.cpuMedian
  rw [hcpu] at hfinite
  exact absurd hfinite (by decide)

end PowerForensics.Analysis
