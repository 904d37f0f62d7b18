import PowerForensics.Binary64.Numeral
import PowerForensics.Core.CsvMerge
import PowerForensics.Text.Csv

/-! # The text of the CSV export

Cells with a comma, a quote or a line feed are quoted, and only in two of the columns.
The text is read back as the rows exactly if the metrics, which are written as they are,
and the carriage returns in the other two columns do no harm.
-/

namespace PowerForensics.Session

open Csv (Bare Cell FieldText)

/-! ## Formatting -/

def csvHeader : String := "mono_s,collector,metric,extra,value,provenance,reason,quality"

/-- A cell with a comma, a quote or a line feed is quoted. -/
def formatCsvCell (s : List Char) : List Char :=
  if ',' ∈ s ∨ '"' ∈ s ∨ '\n' ∈ s then Csv.quoted s else s

/-- One row with its line feed; extra and reason are the columns with quoting. -/
def formatCsvRow (row : CsvRow) : List Char :=
  row.monoS.fixed 3 ++ ',' :: (row.collector ++ ',' :: (row.metric ++ ',' ::
    (formatCsvCell row.extra ++ ',' :: (row.value ++ ',' :: (row.provenance ++ ',' ::
      (formatCsvCell row.reason ++ ',' :: (row.quality ++ ['\n'])))))))

def csvText (s : SessionData) : String :=
  String.ofList (csvHeader.toList ++ '\n' :: (rawRowsIter s).flatMap fun row => formatCsvRow row.toCsv)

/-- The field strings of a row. -/
def rowFields (row : CsvRow) : List (List Char) :=
  [row.monoS.fixed 3, row.collector, row.metric, row.extra, row.value, row.provenance, row.reason,
    row.quality]

/-- The names of the columns. -/
def csvColumns : List (List Char) :=
  ["mono_s".toList, "collector".toList, "metric".toList, "extra".toList, "value".toList,
    "provenance".toList, "reason".toList, "quality".toList]

/-- The text is read as a table in which every data row has as many fields as the header, and
these are the field strings of the rows in their order. -/
def Lossless (s : SessionData) : Prop :=
  ∃ table, Csv.read (csvText s).toList = some (csvColumns :: table) ∧
    (∀ fields ∈ table, fields.length = csvColumns.length) ∧
    table = (rawRowsIter s).map fun row => rowFields row.toCsv

/-! ## Cells -/

/-- The cells of the header. -/
def headerCells : List Cell := csvColumns.map fun name => ⟨name, name⟩

/-- The cells of a row. -/
def rowCells (row : CsvRow) : List Cell :=
  [⟨row.monoS.fixed 3, row.monoS.fixed 3⟩, ⟨row.collector, row.collector⟩,
    ⟨row.metric, row.metric⟩, ⟨row.extra, formatCsvCell row.extra⟩, ⟨row.value, row.value⟩,
    ⟨row.provenance, row.provenance⟩, ⟨row.reason, formatCsvCell row.reason⟩,
    ⟨row.quality, row.quality⟩]

theorem csvText_eq (s : SessionData) :
    (csvText s).toList =
      Csv.tableText (headerCells :: (rawRowsIter s).map fun row => rowCells row.toCsv) := by
  have hheader : Csv.recordText headerCells = csvHeader.toList := by decide
  have hrow : ∀ row : CsvRow, Csv.recordText (rowCells row) ++ ['\n'] = formatCsvRow row := by
    intro row
    simp [rowCells, Csv.recordText, formatCsvRow]
  rw [csvText, String.toList_ofList, Csv.tableText, List.flatMap_cons, hheader, List.flatMap_map,
    List.append_assoc, List.singleton_append]
  simp only [hrow]

theorem written_formatCsvCell (s : List Char) : Cell.Written ⟨s, formatCsvCell s⟩ := by
  unfold Cell.Written formatCsvCell
  split
  · exact Or.inr rfl
  · exact Or.inl rfl

theorem written_rowCells (row : CsvRow) : ∀ cell ∈ rowCells row, cell.Written := by
  simp only [rowCells, List.forall_mem_cons, List.not_mem_nil, false_imp_iff, implies_true,
    and_true]
  exact ⟨Or.inl rfl, Or.inl rfl, Or.inl rfl, written_formatCsvCell _, Or.inl rfl, Or.inl rfl,
    written_formatCsvCell _, Or.inl rfl⟩

/-- The cell is quoted, or has no carriage return. -/
def CellKept (cell : String) : Prop :=
  (',' ∈ cell.toList ∨ '"' ∈ cell.toList ∨ '\n' ∈ cell.toList) ∨ '\r' ∉ cell.toList

theorem fieldText_formatCsvCell (cell : String) :
    FieldText cell.toList (formatCsvCell cell.toList) ↔ CellKept cell := by
  unfold formatCsvCell CellKept
  split
  next hspecial => exact ⟨fun _ => Or.inl hspecial, fun _ => .quoted⟩
  next hplain =>
    rw [Csv.fieldText_self, or_iff_right hplain]
    simp only [not_or] at hplain
    constructor
    · intro hbare hcr
      have := hbare '\r' hcr
      cases this
    · intro hcr c hc
      have hmem : c ∉ [',', '"', '\n', '\r'] := by
        simp only [List.mem_cons, List.not_mem_nil, or_false, not_or]
        exact ⟨fun h => hplain.1 (h ▸ hc), fun h => hplain.2.1 (h ▸ hc),
          fun h => hplain.2.2 (h ▸ hc), fun h => hcr (h ▸ hc)⟩
      exact decide_eq_true hmem

/-! ## Columns without arbitrary text -/

theorem bare_of_denotes {cs : List Char} {x : Binary64} (hcs : Binary64.Denotes cs x) :
    Bare cs := by
  obtain ⟨n, _, rfl, _⟩ := hcs
  intro c hc
  by_contra hspecial
  have hmem : c ∈ [',', '"', '\n', '\r'] := by
    by_contra hnone
    exact hspecial (decide_eq_true hnone)
  simp only [List.mem_cons, List.not_mem_nil, or_false] at hmem
  rcases hmem with rfl | rfl | rfl | rfl <;> rcases n.mem_text hc with h | h <;> simp at h

theorem bare_fixed (p : Nat) (x : Binary64) : Bare (x.fixed p) := by
  cases hx : x.isFinite with
  | true => exact bare_of_denotes (Binary64.denotes_fixed p hx)
  | false =>
      rcases Binary64.fixed_of_not_finite p hx with h | h
      · rw [h]
        decide
      · rw [h, Binary64.signText]
        split <;> decide

theorem bare_display (x : Binary64) : Bare x.display := by
  cases hx : x.isFinite with
  | true => exact bare_of_denotes (Binary64.denotes_display hx)
  | false =>
      rw [Binary64.display_of_not_finite hx]
      exact bare_fixed 0 x

def collectorNames : List String :=
  ["battery", "cpu", "gpu", "proc", "display", "net", "storage", "usb", "self"]

/-- The columns of the row that are words of the program are bare. -/
def Worded (row : RawRow) : Prop :=
  Bare row.collector.toList ∧ Bare row.provenance.toList ∧ Bare row.quality.toList

theorem worded_csvRow (t : Binary64) (c m e : String) (v : Telemetry Binary64)
    (hc : c ∈ collectorNames) : Worded (csvRow t c m e v) := by
  refine ⟨?_, ?_, ?_⟩
  · have hall : ∀ name ∈ collectorNames, Bare name.toList := by decide
    exact hall c hc
  · have hall : ∀ p : Provenance, Bare p.asStr.toList := by
      intro p
      cases p <;> decide
    exact hall _
  · have hall : ∀ q : SampleQuality, Bare q.asStr.toList := by
      intro q
      cases q <;> decide
    exact hall _

theorem worded_csvSources (s : SessionData) : ∀ source ∈ csvSources s, ∀ row ∈ source,
    Worded row := by
  simp (disch := decide) only [csvSources, batteryRows, cpuRows, coreRows, batteryExtraRows,
    gpuRows, adapterRows, procRows, displayRows, displayEntryRows, netRows, storageRows, usbRows,
    selfRows, List.forall_mem_cons, List.forall_mem_append, List.forall_mem_map,
    List.forall_mem_flatMap, worded_csvRow, List.not_mem_nil, false_imp_iff, implies_true, and_true]

/-! ## Reading the export back -/

/-- Every row has a bare metric, and an extra and a reason that are kept. -/
def Exportable (s : SessionData) : Prop :=
  ∀ source ∈ csvSources s, ∀ row ∈ source,
    Bare row.metric.toList ∧ CellKept row.extra ∧ CellKept row.reason

theorem fieldText_rowCells {row : RawRow} (hrow : Worded row) :
    (∀ cell ∈ rowCells row.toCsv, FieldText cell.field cell.text) ↔
      Bare row.metric.toList ∧ CellKept row.extra ∧ CellKept row.reason := by
  have hvalue : Bare row.toCsv.value := by
    unfold RawRow.toCsv
    cases row.value with
    | none => simp [Bare]
    | some x => exact bare_display x
  simp only [rowCells, List.forall_mem_cons, List.not_mem_nil, false_imp_iff, implies_true,
    and_true, Csv.fieldText_self]
  simp only [RawRow.toCsv, fieldText_formatCsvCell]
  have hcollector := hrow.1
  have hprovenance := hrow.2.1
  have hquality := hrow.2.2
  have htime := bare_fixed 3 row.monoS
  simp only [RawRow.toCsv] at hvalue
  simp only [hcollector, hprovenance, hquality, htime, hvalue, true_and, and_true]

theorem mem_rawRowsIter {s : SessionData} {row : RawRow} :
    row ∈ rawRowsIter s ↔ ∃ source ∈ csvSources s, row ∈ source := by
  have hperm := (holds_start (csvSources s)).merges.perm
  exact hperm.mem_iff.trans List.mem_flatten

/-- The export is read back exactly if every cell of every row is. -/
theorem lossless_iff_fieldText (s : SessionData) : Lossless s ↔
    ∀ row ∈ rawRowsIter s, ∀ cell ∈ rowCells row.toCsv, FieldText cell.field cell.text := by
  have hread : Csv.read (csvText s).toList =
      some (csvColumns :: (rawRowsIter s).map fun row => rowFields row.toCsv) ↔
        ∀ row ∈ rawRowsIter s, ∀ cell ∈ rowCells row.toCsv, FieldText cell.field cell.text := by
    let table := headerCells :: (rawRowsIter s).map fun row => rowCells row.toCsv
    have hne : ∀ cells ∈ table, cells ≠ [] := by
      rw [List.forall_mem_cons, List.forall_mem_map]
      exact ⟨List.cons_ne_nil _ _, fun row _ => List.cons_ne_nil _ _⟩
    have hwritten : ∀ cells ∈ table, ∀ cell ∈ cells, cell.Written := by
      rw [List.forall_mem_cons, List.forall_mem_map]
      refine ⟨fun cell hcell => ?_, fun row _ => written_rowCells row.toCsv⟩
      obtain ⟨name, -, rfl⟩ := List.mem_map.mp hcell
      exact Or.inl rfl
    have htable := Csv.read_tableText_iff hne hwritten
    have hheader : ∀ cell ∈ headerCells, FieldText cell.field cell.text := by
      intro cell hcell
      obtain ⟨name, hname, rfl⟩ := List.mem_map.mp hcell
      have hbare : ∀ name ∈ csvColumns, Bare name := by decide
      exact .bare (hbare name hname)
    rw [List.forall_mem_cons, and_iff_right hheader, List.forall_mem_map, List.map_cons,
      List.map_map] at htable
    rw [csvText_eq]
    exact htable
  rw [← hread]
  constructor
  · rintro ⟨table, htable, -, rfl⟩
    exact htable
  · intro htable
    refine ⟨_, htable, ?_, rfl⟩
    rw [List.forall_mem_map]
    exact fun _ _ => rfl

/-- The export is read back exactly if every metric is bare and every extra and reason is
quoted or has no carriage return. -/
theorem csvText_lossless_iff (s : SessionData) : Lossless s ↔ Exportable s := by
  rw [lossless_iff_fieldText]
  unfold Exportable
  constructor
  · intro hall source hsource row hrow
    exact (fieldText_rowCells (worded_csvSources s source hsource row hrow)).mp
      (hall row (mem_rawRowsIter.mpr ⟨source, hsource, hrow⟩))
  · intro hall row hrow
    obtain ⟨source, hsource, hmem⟩ := mem_rawRowsIter.mp hrow
    exact (fieldText_rowCells (worded_csvSources s source hsource row hmem)).mpr
      (hall source hsource row hmem)

/-- A counter whose key has a comma makes a row with one field too many. -/
theorem csvText_comma_key :
    ¬ Lossless { (default : SessionData) with
      cpu := [{ (default : CpuPoint) with totals := [("a,b", default)] }] } := by
  rw [lossless_iff_fieldText]
  intro hall
  have hworded := worded_csvRow (default : CpuPoint).t "cpu" "a,b" "" default (by decide)
  have hcells := hall (csvRow (default : CpuPoint).t "cpu" "a,b" "" default)
    (mem_rawRowsIter.mpr ⟨_, List.mem_cons_of_mem _ List.mem_cons_self, by simp [cpuRows]⟩)
  have hmetric := ((fieldText_rowCells hworded).mp hcells).1
  revert hmetric
  decide

end PowerForensics.Session
