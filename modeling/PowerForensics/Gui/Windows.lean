import Mathlib.Data.List.Sort
import PowerForensics.Core.JsonRefinement
import PowerForensics.Gui.Sessions
import PowerForensics.Text.Search

/-! # Bounded window access

A window of a recording is read from the last checkpoint at or before its begin, and up to the
first record past its end. Both would be all of it if the wall times of a recording were in
order; a wall clock that is set back and records of one time at a checkpoint are not. The
checkpoints of a file are kept with its size, and are those of another content of that size then.
-/

namespace PowerForensics.Sessions

open Json Session Search

/-! ## Checkpoints -/

def checkpointEveryLines : Nat := 256

structure Checkpoint where
  wallMs : UInt64
  byteOffset : Nat

structure WindowIndex where
  size : Nat
  checkpoints : List Checkpoint

/-- The number behind the first key of a wall time on a line. -/
def extractWallMs (line : List Char) : Option UInt64 := do
  let rest ← behind "\"wall_ms\":".toList line
  parseU64 ((trimStart rest).takeWhile isDigit)

/-- The checkpoints of some lines, from the number and the offset of the first one on. -/
def checkpointsFrom (number offset : Nat) : List (List UInt8) → List Checkpoint
  | [] => []
  | line :: rest =>
      let here :=
        if number % checkpointEveryLines = 0 then
          ((extractWallMs (Utf8.decodeLossy line)).map fun wall => Checkpoint.mk wall offset).toList
        else []
      here ++ checkpointsFrom (number + 1) (offset + line.length) rest

def buildWindowIndex (bs : List UInt8) : WindowIndex :=
  ⟨bs.length, checkpointsFrom 0 0 (byteLines bs)⟩

/-- The largest checkpoint at or before the begin of the window. -/
def startOffsetFor (checkpoints : List Checkpoint) (fromMs : UInt64) : Nat :=
  if fromMs = 0 ∨ checkpoints = [] then 0
  else
    let idx :=
      match binarySearchBy (fun c => compare c.wallMs fromMs) checkpoints with
      | .ok i => i
      | .error i => i - 1
    (checkpoints[idx]?.map Checkpoint.byteOffset).getD 0

/-! ## Checkpoints that are kept -/

def maxWindowIndexEntries : Nat := 8

section Kept

variable {Path : Type} [DecidableEq Path]

/-- The checkpoints that are kept for a path, if the file still has their size. -/
def keptIndex (windows : List (Path × WindowIndex)) (path : Path) (bs : List UInt8) :
    Option WindowIndex :=
  ((windows.find? fun e => e.1 = path).map Prod.snd).filter fun idx => idx.size = bs.length

/-- Of a full cache some entry is dropped. -/
def insertIndex (windows : List (Path × WindowIndex)) (path evicted : Path) (idx : WindowIndex) :
    List (Path × WindowIndex) :=
  let windows :=
    if maxWindowIndexEntries ≤ windows.length ∧ windows.all (·.1 ≠ path) then
      windows.filter fun e => e.1 ≠ evicted
    else windows
  (path, idx) :: windows.filter fun e => e.1 ≠ path

/-- The checkpoints of a file, and those that are kept from then on. -/
def getWindowIndex (windows : List (Path × WindowIndex)) (path evicted : Path)
    (bs : List UInt8) : WindowIndex × List (Path × WindowIndex) :=
  match keptIndex windows path bs with
  | some idx => (idx, windows)
  | none => (buildWindowIndex bs, insertIndex windows path evicted (buildWindowIndex bs))

end Kept

/-! ## The region -/

/-- The lines of some bytes as the region reader sees them, with the offsets at which they begin. -/
def placed (offset : Nat) : List (List UInt8) → List (Nat × List Char)
  | [] => []
  | raw :: rest =>
      let trimmed := Lines.trim (Utf8.decodeLossy raw)
      if trimmed = [] then placed (offset + raw.length) rest
      else (offset, trimmed) :: placed (offset + raw.length) rest

/-- The lines that a reader sees from an offset on. -/
def linesFrom (bs : List UInt8) (start : Nat) : List (Nat × List Char) :=
  placed start (byteLines (bs.drop start))

/-- The wall time that a line is placed by; zero when it has none. -/
def lineWall (line : List Char) : UInt64 := (extractWallMs line).getD 0

/-- The lines of the region up to the first one past the window. -/
def scanRegion (fromMs toMs : UInt64) : List (Nat × List Char) → List (Nat × List Char)
  | [] => []
  | line :: rest =>
      let w := lineWall line.2
      if 0 < toMs ∧ toMs < w then []
      else if w = 0 ∨ fromMs ≤ w then line :: scanRegion fromMs toMs rest
      else scanRegion fromMs toMs rest

/-- Where the reader of a window starts. -/
def regionStart (idx : WindowIndex) (fromMs : UInt64) : Nat :=
  startOffsetFor idx.checkpoints fromMs

def regionHeader (bs : List UInt8) : Option (List Char) :=
  headerLine (Utf8.decodeLossy (bs.take headBytes))

section Region

variable (idx : WindowIndex) (bs : List UInt8) (fromMs toMs : UInt64)

/-- The lines of the file that the region has. -/
def regionRead : List (Nat × List Char) :=
  scanRegion fromMs toMs (linesFrom bs (regionStart idx fromMs))

/-- The header is put before a region that does not start with the file. -/
def headerLines : List (List Char) :=
  if 0 < regionStart idx fromMs then (regionHeader bs).toList else []

/-- The text that is handed to the loader. -/
def regionText : List Char :=
  Lines.terminated (headerLines idx bs fromMs ++ (regionRead idx bs fromMs toMs).map Prod.snd)

end Region

def loadRegion (idx : WindowIndex) (file : SessionFile) (fromMs toMs : UInt64) :
    Except Failure SessionData :=
  match loadSession file.name (String.ofList (regionText idx file.bytes fromMs toMs)) with
  | .error fault => .error (corrupt "cannot parse session window" fault)
  | .ok s => .ok s

/-- A region is read with the checkpoints that are kept, which may change by that. -/
def loadRegionData {Path : Type} [DecidableEq Path] (windows : List (Path × WindowIndex))
    (path evicted : Path) (file : SessionFile) (fromMs toMs : UInt64) :
    Except Failure SessionData × List (Path × WindowIndex) :=
  match readHeadTail file.bytes with
  | .error e => (.error (.error e), windows)
  | .ok _ =>
      let (idx, windows) := getWindowIndex windows path evicted file.bytes
      (loadRegion idx file fromMs toMs, windows)

/-! ## What the region should hold -/

/-- A record of a session, other than its header, with a wall time in the window. -/
def inWindow (header : Option (List Char)) (fromMs toMs : UInt64) (line : List Char) : Bool :=
  header ≠ some line &&
    ((parse (String.ofList line)).toOption.bind (·.numAt "wall_ms")).any fun wall =>
      fromMs ≤ asU64 wall ∧ (toMs = 0 ∨ asU64 wall ≤ toMs)

/-- The records of the window, wherever they are in the file. -/
def records (bs : List UInt8) (fromMs toMs : UInt64) : List (Nat × List Char) :=
  (linesFrom bs 0).filter fun line => inWindow (regionHeader bs) fromMs toMs line.2

/-- The wall times of every 256th line that has one, with the offsets of these lines. -/
def marks (bs : List UInt8) : List Checkpoint :=
  (List.range (byteLines bs).length).filterMap fun k =>
    if k % 256 = 0 then
      ((byteLines bs)[k]?.bind fun raw => extractWallMs (Utf8.decodeLossy raw)).map fun wall =>
        ⟨wall, lineStart bs k⟩
    else none

/-- The offset of the mark at which halving for the begin of a window ends. -/
def searchEnd (marks : List Checkpoint) (fromMs : UInt64) : Nat :=
  if fromMs = 0 then 0
  else (marks[halved (fun c => compare c.wallMs fromMs) marks]?.map Checkpoint.byteOffset).getD 0

/-! ## Lines and their offsets -/

section Placed

variable {bs : List UInt8} {line : Nat × List Char}

theorem le_of_mem_placed {offset : Nat} {ls : List (List UInt8)} (hline : line ∈ placed offset ls) :
    offset ≤ line.1 := by
  induction ls generalizing offset with
  | nil => cases hline
  | cons raw ls ih =>
      rw [placed] at hline
      split at hline
      · exact (Nat.le_add_right _ _).trans (ih hline)
      · obtain rfl | hline := List.mem_cons.mp hline
        · exact le_refl _
        · exact (Nat.le_add_right _ _).trans (ih hline)

/-- The lines are in the order of their offsets, which differ. -/
theorem placed_ascending (offset : Nat) (ls : List (List UInt8)) :
    (placed offset ls).Pairwise (·.1 < ·.1) := by
  induction ls generalizing offset with
  | nil => exact List.Pairwise.nil
  | cons raw ls ih =>
      rw [placed]
      split
      · exact ih _
      · next hne =>
        refine List.pairwise_cons.mpr ⟨fun line hline => ?_, ih _⟩
        have hraw : raw ≠ [] := by
          rintro rfl
          exact hne rfl
        have hle := le_of_mem_placed hline
        have hpos := List.length_pos_of_ne_nil hraw
        dsimp only
        omega

theorem linesFrom_ascending (bs : List UInt8) (start : Nat) :
    (linesFrom bs start).Pairwise (·.1 < ·.1) :=
  placed_ascending _ _

theorem placed_append (offset : Nat) (before after : List (List UInt8)) :
    placed offset (before ++ after) =
      placed offset before ++ placed (offset + before.flatten.length) after := by
  induction before generalizing offset with
  | nil => rfl
  | cons raw before ih =>
      rw [List.cons_append, placed, placed, ih, List.flatten_cons, List.length_append,
        ← Nat.add_assoc]
      split
      · rfl
      · rfl

theorem mem_placed_cons {offset : Nat} {raw : List UInt8} {rest : List (List UInt8)}
    (hline : line ∈ placed offset (raw :: rest)) :
    line.1 = offset ∨ line ∈ placed (offset + raw.length) rest := by
  rw [placed] at hline
  split at hline
  · exact Or.inr hline
  · obtain rfl | hline := List.mem_cons.mp hline
    · exact Or.inl rfl
    · exact Or.inr hline

/-- A line begins where the first one does, or behind a line feed. -/
theorem mem_placed_cases {offset : Nat} {begun : List UInt8}
    (hline : line ∈ placed offset (byteLinesFrom begun bs)) :
    line.1 = offset ∨ ∃ before after, bs = before ++ 0x0A :: after ∧
      line.1 = offset + begun.length + before.length + 1 ∧
        line ∈ placed line.1 (byteLines after) := by
  induction bs generalizing begun offset with
  | nil =>
      rw [byteLinesFrom] at hline
      split at hline
      · cases hline
      · exact Or.inl ((mem_placed_cons hline).resolve_right (by simp [placed]))
  | cons b bs ih =>
      rw [byteLinesFrom] at hline
      split at hline
      · next hfeed =>
        subst hfeed
        obtain hoffset | hline := mem_placed_cons hline
        · exact Or.inl hoffset
        · rw [List.length_reverse, List.length_cons, ← Nat.add_assoc] at hline
          obtain hfeed | ⟨before, after, rfl, hplace, hafter⟩ := ih hline
          · exact Or.inr ⟨[], bs, rfl, hfeed, hfeed.symm ▸ hline⟩
          · refine Or.inr ⟨0x0A :: before, after, rfl, ?_, hafter⟩
            rw [hplace, List.length_nil, List.length_cons]
            omega
      · next hother =>
        obtain hoffset | ⟨before, after, rfl, hplace, hafter⟩ := ih hline
        · exact Or.inl hoffset
        · refine Or.inr ⟨b :: before, after, rfl, ?_, hafter⟩
          rw [hplace, List.length_cons, List.length_cons]
          omega

/-- A line of the file is seen by a reader that starts at it or before it. -/
theorem mem_linesFrom {start : Nat} (hline : line ∈ linesFrom bs 0) :
    line ∈ linesFrom bs start ↔ start ≤ line.1 := by
  refine ⟨le_of_mem_placed, fun hle => ?_⟩
  obtain hzero | ⟨before, after, rfl, hplace, hafter⟩ := mem_placed_cases hline
  · obtain rfl : start = 0 := by omega
    exact hline
  · rw [List.length_nil, Nat.zero_add] at hplace
    obtain rfl | hbefore := Nat.eq_or_lt_of_le hle
    · have hdrop : (before ++ 0x0A :: after).drop line.1 = after := by
        rw [hplace, ← List.singleton_append, ← List.append_assoc, List.drop_left']
        simp
      rw [linesFrom, hdrop]
      exact hafter
    · have hdrop : (before ++ 0x0A :: after).drop start = before.drop start ++ 0x0A :: after := by
        rw [List.drop_append_of_le_length (by omega)]
      have hlength : start + (before.drop start ++ [0x0A]).length = line.1 := by
        rw [List.length_append, List.length_drop, List.length_singleton]
        omega
      rw [linesFrom, hdrop, byteLines_newline, placed_append, flatten_byteLines, hlength]
      exact List.mem_append_right _ hafter

end Placed

/-! ## Where the region starts -/

/-- The mark of a line, if the line is one of those that are marked and has a wall time. -/
theorem checkpointsFrom_eq (number offset : Nat) (ls : List (List UInt8)) :
    checkpointsFrom number offset ls = (List.range ls.length).filterMap fun k =>
      if (number + k) % checkpointEveryLines = 0 then
        (ls[k]?.bind fun raw => extractWallMs (Utf8.decodeLossy raw)).map fun wall =>
          ⟨wall, offset + (ls.take k).flatten.length⟩
      else none := by
  induction ls generalizing number offset with
  | nil => rfl
  | cons raw ls ih =>
      have hlater : ∀ k, number + 1 + k = number + (k + 1) := fun k => by omega
      have hplace : ∀ k, offset + raw.length + (ls.take k).flatten.length =
          offset + ((raw :: ls).take (k + 1)).flatten.length := fun k => by
        rw [List.take_succ_cons, List.flatten_cons, List.length_append, Nat.add_assoc]
      rw [checkpointsFrom, ih, List.length_cons, List.range_succ_eq_map, List.filterMap_cons,
        List.filterMap_map]
      simp only [hlater, hplace, Function.comp_def, List.getElem?_cons_succ,
        List.getElem?_cons_zero, Option.bind_some, List.take_zero, List.flatten_nil,
        List.length_nil, Nat.add_zero]
      by_cases hmarked : number % checkpointEveryLines = 0
      · cases hwall : extractWallMs (Utf8.decodeLossy raw) with
        | none => simp [hmarked]
        | some wall => simp [hmarked]
      · simp [hmarked]

theorem checkpoints_eq_marks (bs : List UInt8) : (buildWindowIndex bs).checkpoints = marks bs := by
  rw [buildWindowIndex, checkpointsFrom_eq]
  simp only [Nat.zero_add]
  rfl

theorem startOffsetFor_eq (checkpoints : List Checkpoint) (fromMs : UInt64) :
    startOffsetFor checkpoints fromMs = searchEnd checkpoints fromMs := by
  unfold startOffsetFor searchEnd
  by_cases hzero : fromMs = 0
  · rw [if_pos (Or.inl hzero), if_pos hzero]
  by_cases hnone : checkpoints = []
  · rw [if_pos (Or.inr hnone), if_neg hzero, hnone]
    rfl
  · rw [if_neg (not_or.mpr ⟨hzero, hnone⟩), if_neg hzero]
    dsimp only
    obtain hsearch | hsearch | ⟨hsearch, hfirst⟩ :=
      @binarySearchBy_cases _ (fun c : Checkpoint => compare c.wallMs fromMs) checkpoints hnone
    · rw [hsearch]
    · rw [hsearch]
      rfl
    · rw [hsearch, hfirst]

/-! ## What the region holds -/

theorem mem_scanRegion {fromMs toMs : UInt64} {ls : List (Nat × List Char)}
    (hascending : ls.Pairwise (·.1 < ·.1)) (line : Nat × List Char) :
    line ∈ scanRegion fromMs toMs ls ↔ line ∈ ls ∧
      (∀ other ∈ ls, other.1 ≤ line.1 → toMs = 0 ∨ lineWall other.2 ≤ toMs) ∧
        (lineWall line.2 = 0 ∨ fromMs ≤ lineWall line.2) := by
  have hwithin : ∀ w : UInt64, (toMs = 0 ∨ w ≤ toMs) ↔ ¬(0 < toMs ∧ toMs < w) := by
    intro w
    rw [not_and_or, UInt64.not_lt, UInt64.not_lt, UInt64.le_zero_iff]
  induction ls with
  | nil => simp [scanRegion]
  | cons first ls ih =>
      obtain ⟨hfirst, hascending⟩ := List.pairwise_cons.mp hascending
      rw [scanRegion]
      split
      · next hpast =>
        -- Nothing from the first line past the window on is read.
        refine iff_of_false List.not_mem_nil fun ⟨hmem, hpassed, _⟩ => ?_
        have hle : first.1 ≤ line.1 := by
          obtain rfl | hmem := List.mem_cons.mp hmem
          · exact le_refl _
          · exact (hfirst line hmem).le
        exact (hwithin _).mp (hpassed first List.mem_cons_self hle) hpast
      · next hpast =>
        have hrest : line ∈ scanRegion fromMs toMs ls ↔ _ := ih hascending
        have hone : first.1 ≤ line.1 → toMs = 0 ∨ lineWall first.2 ≤ toMs :=
          fun _ => (hwithin _).mpr hpast
        rw [List.forall_mem_cons, List.mem_cons]
        split
        · next hreached =>
          rw [List.mem_cons, hrest]
          constructor
          · rintro (rfl | ⟨hmem, hpassed, hline⟩)
            · exact ⟨Or.inl rfl, ⟨hone, fun other hother hle =>
                absurd (hfirst other hother) (not_lt.mpr hle)⟩, hreached⟩
            · exact ⟨Or.inr hmem, ⟨hone, hpassed⟩, hline⟩
          · rintro ⟨rfl | hmem, ⟨-, hpassed⟩, hline⟩
            · exact Or.inl rfl
            · exact Or.inr ⟨hmem, hpassed, hline⟩
        · next hreached =>
          rw [hrest]
          constructor
          · rintro ⟨hmem, hpassed, hline⟩
            exact ⟨Or.inr hmem, ⟨hone, hpassed⟩, hline⟩
          · rintro ⟨rfl | hmem, ⟨-, hpassed⟩, hline⟩
            · exact absurd hline hreached
            · exact ⟨hmem, hpassed, hline⟩

theorem scanRegion_sublist (fromMs toMs : UInt64) (ls : List (Nat × List Char)) :
    (scanRegion fromMs toMs ls).Sublist ls := by
  induction ls with
  | nil => exact List.Sublist.slnil
  | cons first ls ih =>
      rw [scanRegion]
      split
      · exact List.nil_sublist _
      · split
        · exact ih.cons_cons first
        · exact ih.cons first

/-! ## The lines of the region text -/

theorem placed_clean {offset : Nat} {bs : List UInt8} {line : Nat × List Char}
    (hline : line ∈ placed offset (byteLines bs)) : '\n' ∉ line.2 ∧ Lines.trim line.2 = line.2 := by
  have hraw : ∀ {offset ls}, line ∈ placed offset ls →
      ∃ raw ∈ ls, line.2 = Lines.trim (Utf8.decodeLossy raw) := by
    intro offset ls hline
    induction ls generalizing offset with
    | nil => cases hline
    | cons raw ls ih =>
        rw [placed] at hline
        split at hline
        · obtain ⟨raw', hraw', htext⟩ := ih hline
          exact ⟨raw', List.mem_cons_of_mem _ hraw', htext⟩
        · obtain rfl | hline := List.mem_cons.mp hline
          · exact ⟨raw, List.mem_cons_self, rfl⟩
          · obtain ⟨raw', hraw', htext⟩ := ih hline
            exact ⟨raw', List.mem_cons_of_mem _ hraw', htext⟩
  obtain ⟨raw, hraw, htext⟩ := hraw hline
  obtain ⟨body, hbody, hshape⟩ := byteLines_shape hraw
  have htrim : Lines.trim (Utf8.decodeLossy raw) = Lines.trim (Utf8.decodeLossy body) := by
    rcases hshape with rfl | rfl
    · rfl
    · rw [Utf8.decodeLossy_newline hbody, Lines.trim_append_whitespace _ (by decide)]
  rw [htext, htrim]
  constructor
  · intro hmem
    exact Utf8.newline_not_mem_decodeLossy hbody (Lines.mem_of_mem_trim hmem)
  · exact Lines.trim_trim _

theorem headerLine_clean {head line : List Char} (hline : headerLine head = some line) :
    '\n' ∉ line ∧ Lines.trim line = line := by
  have hmem := List.mem_of_find?_eq_some hline
  obtain ⟨raw, hraw, rfl⟩ := List.mem_map.mp hmem
  exact ⟨fun h => Lines.not_mem_lines hraw (Lines.mem_of_mem_trim h), Lines.trim_trim _⟩

/-- The loader sees the lines that were put into the text. -/
theorem lines_regionText (idx : WindowIndex) (bs : List UInt8) (fromMs toMs : UInt64) :
    Lines.lines (regionText idx bs fromMs toMs) =
      headerLines idx bs fromMs ++ (regionRead idx bs fromMs toMs).map Prod.snd := by
  rw [regionText]
  generalize hlines : headerLines idx bs fromMs ++ (regionRead idx bs fromMs toMs).map Prod.snd =
    ls
  have hclean : ∀ line ∈ ls, '\n' ∉ line ∧ Lines.trim line = line := by
    intro line hline
    rw [← hlines] at hline
    rcases List.mem_append.mp hline with hheader | hread
    · unfold headerLines at hheader
      split at hheader
      · exact headerLine_clean (Option.mem_toList.mp hheader)
      · cases hheader
    · obtain ⟨placed, hplaced, rfl⟩ := List.mem_map.mp hread
      exact placed_clean ((scanRegion_sublist _ _ _).subset hplaced)
  have hread := Lines.lines_terminated (fun line hline => (hclean line hline).1) []
  rw [List.append_nil, Lines.lines_nil, List.append_nil] at hread
  have hstrip : ls.map Lines.stripCr = ls :=
    (List.map_congr_left fun line hline => Lines.stripCr_of_trim (hclean line hline).2).trans
      (List.map_id _)
  rwa [hstrip] at hread

/-- Records are read once and in order if each of them is read. -/
theorem complete_iff_subset (idx : WindowIndex) (bs : List UInt8) (fromMs toMs : UInt64) :
    (regionRead idx bs fromMs toMs).filter (· ∈ records bs fromMs toMs) =
        records bs fromMs toMs ↔
      ∀ r ∈ records bs fromMs toMs, r ∈ regionRead idx bs fromMs toMs := by
  constructor
  · intro heq r hr
    rw [← heq] at hr
    exact (List.mem_filter.mp hr).1
  · intro hread
    have hirrefl : Std.Irrefl fun l l' : Nat × List Char => l.1 < l'.1 := ⟨fun l => lt_irrefl l.1⟩
    refine List.Pairwise.eq_of_mem_iff
      (((linesFrom_ascending _ _).sublist (scanRegion_sublist _ _ _)).filter _)
      ((linesFrom_ascending _ _).filter _) fun r => ?_
    rw [List.mem_filter, decide_eq_true_eq]
    exact ⟨And.right, fun hr => ⟨hread r hr, hr⟩⟩

/-- The marks that a reader uses: those that are kept for a path, if the file has the size that it
had then, or else those of the file. -/
def usedMarks {Path : Type} [DecidableEq Path] (windows : List (Path × WindowIndex)) (path : Path)
    (bs : List UInt8) : List Checkpoint :=
  ((keptIndex windows path bs).map WindowIndex.checkpoints).getD (marks bs)

theorem usedMarks_nil {Path : Type} [DecidableEq Path] (path : Path) (bs : List UInt8) :
    usedMarks [] path bs = marks bs := rfl

theorem regionStart_eq {Path : Type} [DecidableEq Path] (windows : List (Path × WindowIndex))
    (path evicted : Path) (bs : List UInt8) (fromMs : UInt64) :
    regionStart (getWindowIndex windows path evicted bs).1 fromMs =
      searchEnd (usedMarks windows path bs) fromMs := by
  unfold regionStart getWindowIndex usedMarks
  rw [startOffsetFor_eq]
  cases keptIndex windows path bs with
  | none => exact congrArg (searchEnd · fromMs) (checkpoints_eq_marks bs)
  | some idx => rfl

/-- What it takes for a line of the file to be read. -/
theorem mem_regionRead {Path : Type} [DecidableEq Path] (windows : List (Path × WindowIndex))
    (path evicted : Path) {bs : List UInt8} {fromMs toMs : UInt64} {r : Nat × List Char}
    (hr : r ∈ linesFrom bs 0) :
    r ∈ regionRead (getWindowIndex windows path evicted bs).1 bs fromMs toMs ↔
      searchEnd (usedMarks windows path bs) fromMs ≤ r.1 ∧
        (∀ line ∈ linesFrom bs (searchEnd (usedMarks windows path bs) fromMs), line.1 ≤ r.1 →
          toMs = 0 ∨ lineWall line.2 ≤ toMs) ∧ (lineWall r.2 = 0 ∨ fromMs ≤ lineWall r.2) := by
  rw [regionRead, regionStart_eq, mem_scanRegion (linesFrom_ascending _ _), mem_linesFrom hr]

/-- The lines of the text are those that were read, and among these every record of the window
stands once and in order exactly if, for each of them, it does not begin before the mark that the
search ends at, no line from there up to it has a wall time past the window, and the wall time
that is found on it is not before the window. -/
theorem window_complete_iff {Path : Type} [DecidableEq Path] (windows : List (Path × WindowIndex))
    (path evicted : Path) (bs : List UInt8) (fromMs toMs : UInt64) :
    let idx := (getWindowIndex windows path evicted bs).1
    let start := searchEnd (usedMarks windows path bs) fromMs
    Lines.lines (regionText idx bs fromMs toMs) =
        headerLines idx bs fromMs ++ (regionRead idx bs fromMs toMs).map Prod.snd ∧
      ((regionRead idx bs fromMs toMs).filter (· ∈ records bs fromMs toMs) =
          records bs fromMs toMs ↔
        ∀ r ∈ records bs fromMs toMs, start ≤ r.1 ∧
          (∀ line ∈ linesFrom bs start, line.1 ≤ r.1 → toMs = 0 ∨ lineWall line.2 ≤ toMs) ∧
            (lineWall r.2 = 0 ∨ fromMs ≤ lineWall r.2)) := by
  dsimp only
  refine ⟨lines_regionText _ bs fromMs toMs, ?_⟩
  rw [complete_iff_subset]
  apply forall₂_congr
  intro r hr
  have hline : r ∈ linesFrom bs 0 := (List.mem_filter.mp hr).1
  exact mem_regionRead windows path evicted hline

/-- Whether a line is in a window is found with the reader of its characters. -/
theorem inWindow_eq (header : Option (List Char)) (fromMs toMs : UInt64) :
    inWindow header fromMs toMs = fun line => header ≠ some line &&
      ((readText line).bind (·.numAt "wall_ms")).any fun wall =>
        fromMs ≤ asU64 wall ∧ (toMs = 0 ∨ asU64 wall ≤ toMs) := by
  funext line
  rw [inWindow, toOption_parse]

/-! ## A wall clock that never runs back -/

theorem extractWallMs_trim (line : List Char) :
    extractWallMs (Lines.trim line) = extractWallMs line := by
  have hkey : ∀ c ∈ "\"wall_ms\":".toList, Lines.isWhitespace c = false := by decide
  have hne : "\"wall_ms\":".toList ≠ [] := by decide
  have hfront : ∀ c ∈ line.takeWhile Lines.isWhitespace, Lines.isWhitespace c :=
    fun c hc => List.mem_takeWhile_imp hc
  have hback : ∀ c ∈ (line.dropWhile Lines.isWhitespace).rtakeWhile Lines.isWhitespace,
      Lines.isWhitespace c := fun c hc => List.mem_rtakeWhile_imp hc
  have hline : line = line.takeWhile Lines.isWhitespace ++ (Lines.trim line ++
      (line.dropWhile Lines.isWhitespace).rtakeWhile Lines.isWhitespace) := by
    rw [Lines.trim, List.rdropWhile_append_rtakeWhile, List.takeWhile_append_dropWhile]
  generalize line.takeWhile Lines.isWhitespace = front at *
  generalize (line.dropWhile Lines.isWhitespace).rtakeWhile Lines.isWhitespace = back at *
  generalize Lines.trim line = trimmed at *
  subst hline
  unfold extractWallMs
  rw [behind_blank_append hkey hfront hne, behind_append_blank hkey hback hne]
  cases behind "\"wall_ms\":".toList trimmed with
  | none => rfl
  | some rest => exact congrArg parseU64 (digits_append_blank hback).symm


section Chronological

variable {bs : List UInt8}

theorem linesFrom_lineStart (k : Nat) {line : Nat × List Char}
    (hline : line ∈ linesFrom bs (lineStart bs k)) : line ∈ linesFrom bs 0 := by
  rw [linesFrom, (byteLines_cut bs k).2] at hline
  rw [linesFrom, List.drop_zero, ← List.take_append_drop k (byteLines bs), placed_append,
    List.mem_append, Nat.zero_add]
  exact Or.inr hline

/-- Where a mark stands and what it tells is the place and the wall time of a line. -/
theorem line_of_mark {m : Checkpoint} (hm : m ∈ marks bs) :
    ∃ k, m.byteOffset = lineStart bs k ∧
      ∃ line ∈ linesFrom bs 0, line.1 = m.byteOffset ∧ lineWall line.2 = m.wallMs := by
  obtain ⟨k, -, hmark⟩ := List.mem_filterMap.mp hm
  obtain ⟨-, hmark⟩ := Option.ite_none_right_eq_some.mp hmark
  obtain ⟨wall, hwall, rfl⟩ := Option.map_eq_some_iff.mp hmark
  obtain ⟨raw, hraw, hwall⟩ := Option.bind_eq_some_iff.mp hwall
  rw [← extractWallMs_trim] at hwall
  have hne : Lines.trim (Utf8.decodeLossy raw) ≠ [] := by
    intro hnil
    rw [hnil] at hwall
    cases hwall
  refine ⟨k, rfl, (lineStart bs k, Lines.trim (Utf8.decodeLossy raw)), ?_, rfl, ?_⟩
  · apply linesFrom_lineStart k
    obtain ⟨hlt, rfl⟩ := List.getElem?_eq_some_iff.mp hraw
    rw [linesFrom, (byteLines_cut bs k).2, List.drop_eq_getElem_cons hlt, placed, if_neg hne]
    exact List.mem_cons_self
  · rw [lineWall, hwall, Option.getD_some]

theorem lineStart_mono {i j : Nat} (hij : i ≤ j) : lineStart bs i ≤ lineStart bs j :=
  (List.Sublist.flatten (List.take_sublist_take_left hij)).length_le

theorem marks_ascending (bs : List UInt8) :
    (marks bs).Pairwise fun m m' => m.byteOffset ≤ m'.byteOffset := by
  refine List.Pairwise.filterMap _ ?_ (List.pairwise_lt_range)
  intro i j hij m hm m' hm'
  obtain ⟨-, hm⟩ := Option.ite_none_right_eq_some.mp hm
  obtain ⟨-, hm'⟩ := Option.ite_none_right_eq_some.mp hm'
  obtain ⟨wall, -, rfl⟩ := Option.map_eq_some_iff.mp hm
  obtain ⟨wall', -, rfl⟩ := Option.map_eq_some_iff.mp hm'
  exact lineStart_mono hij.le

/-- A recording whose wall clock never ran back: the wall times of its lines are in order, the
first line has one, and the scan of a line finds its wall time. -/
structure Chronological (bs : List UInt8) : Prop where
  first : (marks bs).head?.map Checkpoint.byteOffset = some 0
  ascending : (linesFrom bs 0).Pairwise fun a b => lineWall a.2 ≤ lineWall b.2
  found : ∀ line ∈ linesFrom bs 0,
    ∀ wall ∈ (parse (String.ofList line.2)).toOption.bind (·.numAt "wall_ms"),
      lineWall line.2 = asU64 wall

theorem Chronological.wall_le (h : Chronological bs) {a b : Nat × List Char}
    (ha : a ∈ linesFrom bs 0) (hb : b ∈ linesFrom bs 0) (hle : a.1 ≤ b.1) :
    lineWall a.2 ≤ lineWall b.2 := by
  obtain ⟨i, hi, rfl⟩ := List.getElem_of_mem ha
  obtain ⟨j, hj, rfl⟩ := List.getElem_of_mem hb
  rcases Nat.lt_trichotomy i j with hlt | rfl | hlt
  · exact List.pairwise_iff_getElem.mp h.ascending i j hi hj hlt
  · exact UInt64.le_refl _
  · have hbefore := List.pairwise_iff_getElem.mp (linesFrom_ascending bs 0) j i hj hi hlt
    omega

theorem Chronological.marks_walls (h : Chronological bs) :
    (marks bs).Pairwise fun m m' => m.wallMs ≤ m'.wallMs := by
  refine (marks_ascending bs).imp_of_mem fun {m m'} hm hm' hle => ?_
  obtain ⟨-, -, a, ha, hplace, hwall⟩ := line_of_mark hm
  obtain ⟨-, -, b, hb, hplace', hwall'⟩ := line_of_mark hm'
  rw [← hplace, ← hplace'] at hle
  rw [← hwall, ← hwall']
  exact h.wall_le ha hb hle

theorem not_greater_iff {a b : UInt64} : compare a b ≠ .gt ↔ a ≤ b := by
  change compareOfLessAndEq a b ≠ .gt ↔ a ≤ b
  unfold compareOfLessAndEq
  split
  next hlt => exact iff_of_true nofun (UInt64.le_of_lt hlt)
  next hnot =>
    split
    next heq => exact iff_of_true nofun (heq ▸ UInt64.le_refl a)
    next hne =>
      refine iff_of_false (fun h => h rfl) fun hle => hne ?_
      exact UInt64.le_antisymm hle (UInt64.not_lt.mp hnot)

/-- In order, the search does not end beyond a place if no mark there is at or before the begin of
the window. -/
theorem searchEnd_le_iff {ms : List Checkpoint} {fromMs : UInt64} {n : Nat}
    (hwalls : ms.Pairwise fun m m' => m.wallMs ≤ m'.wallMs)
    (hplaces : ms.Pairwise fun m m' => m.byteOffset ≤ m'.byteOffset)
    (hfirst : ms.head?.map Checkpoint.byteOffset = some 0) :
    searchEnd ms fromMs ≤ n ↔ fromMs ≠ 0 → ∀ m ∈ ms, m.wallMs ≤ fromMs → m.byteOffset ≤ n := by
  unfold searchEnd
  split
  next hzero => exact iff_of_true (Nat.zero_le n) fun hne => absurd hzero hne
  next hzero =>
    obtain ⟨m₀, hm₀, hplace₀⟩ := Option.map_eq_some_iff.mp hfirst
    have hne : ms ≠ [] := by
      rintro rfl
      cases hm₀
    have hsorted : ms.Pairwise fun m m' =>
        compare m.wallMs fromMs = .gt → compare m'.wallMs fromMs = .gt := by
      refine hwalls.imp fun {m m'} hle hgreater => ?_
      by_contra hnot
      exact not_greater_iff.mpr (UInt64.le_trans hle (not_greater_iff.mp hnot)) hgreater
    obtain ⟨hlt, hend⟩ := halved_spec hne (fun m : Checkpoint => compare m.wallMs fromMs)
    have hbeyond := fun j hj => @halved_ascending _ _ _ hsorted j hj
    generalize halved (fun m : Checkpoint => compare m.wallMs fromMs) ms = k at *
    rw [List.getElem?_eq_getElem hlt, Option.map_some, Option.getD_some]
    constructor
    · rintro hle - m hm hwall
      obtain ⟨j, hj, rfl⟩ := List.getElem_of_mem hm
      have hjk : j ≤ k := by
        by_contra hkj
        exact not_greater_iff.mpr hwall (hbeyond j hj (by omega))
      obtain rfl | hjk := Nat.eq_or_lt_of_le hjk
      · exact hle
      · exact (List.pairwise_iff_getElem.mp hplaces j k hj hlt hjk).trans hle
    · intro h
      obtain rfl | hend := hend
      · obtain ⟨m, ms, rfl⟩ := List.exists_cons_of_ne_nil hne
        obtain rfl : m = m₀ := Option.some.inj hm₀
        rw [List.getElem_cons_zero, hplace₀]
        exact Nat.zero_le n
      · exact h hzero ms[k] (List.getElem_mem hlt) (not_greater_iff.mp hend)

/-- A search ends at the begin of a line. -/
theorem searchEnd_eq_lineStart (fromMs : UInt64) :
    ∃ k, searchEnd (marks bs) fromMs = lineStart bs k := by
  unfold searchEnd
  split
  · exact ⟨0, rfl⟩
  · cases hm : (marks bs)[halved (fun c => compare c.wallMs fromMs) (marks bs)]? with
    | none => exact ⟨0, rfl⟩
    | some m =>
        obtain ⟨k, hk, -⟩ := line_of_mark (List.mem_of_getElem? hm)
        exact ⟨k, hk⟩

/-- A window of a recording whose wall clock never ran back is complete, but for records that
stand in front of a mark of the very time at which the window begins. -/
theorem window_of_chronological {Path : Type} [DecidableEq Path]
    (windows : List (Path × WindowIndex)) (path evicted : Path) (bs : List UInt8)
    (fromMs toMs : UInt64) (h : Chronological bs) (hown : usedMarks windows path bs = marks bs) :
    (regionRead (getWindowIndex windows path evicted bs).1 bs fromMs toMs).filter
        (· ∈ records bs fromMs toMs) = records bs fromMs toMs ↔
      ∀ r ∈ records bs fromMs toMs, fromMs ≠ 0 → ∀ m ∈ marks bs, m.wallMs = fromMs →
        m.byteOffset ≤ r.1 := by
  rw [complete_iff_subset]
  apply forall₂_congr
  intro r hr
  obtain ⟨hline, hwindow⟩ := List.mem_filter.mp hr
  obtain ⟨-, hwall⟩ := Bool.and_eq_true_iff.mp hwindow
  obtain ⟨wall, hparse, hbounds⟩ := (Option.any_eq_true _ _).mp hwall
  obtain ⟨hfrom, hto⟩ := of_decide_eq_true hbounds
  rw [← h.found r hline wall hparse] at hfrom hto
  rw [mem_regionRead windows path evicted hline, hown,
    searchEnd_le_iff h.marks_walls (marks_ascending bs) h.first]
  constructor
  · rintro ⟨hstart, -⟩ hne m hm hwall
    exact hstart hne m hm (hwall ▸ UInt64.le_refl _)
  · intro hties
    refine ⟨fun hne m hm hle => ?_, fun line hmem hplace => ?_, Or.inr hfrom⟩
    · -- a record in front of a mark has no later time
      by_contra hfront
      obtain ⟨-, -, a, ha, hplace, hmark⟩ := line_of_mark hm
      have hlater := h.wall_le hline ha (by omega)
      rw [hmark] at hlater
      have hsame := UInt64.le_antisymm hle (UInt64.le_trans hfrom hlater)
      exact hfront (hties hne m hm hsame)
    · obtain ⟨k, hk⟩ := @searchEnd_eq_lineStart bs fromMs
      rw [hk] at hmem
      exact hto.imp_right fun hto =>
        UInt64.le_trans (h.wall_le (linesFrom_lineStart k hmem) hline hplace) hto

end Chronological

/-- Two records at the time of the header, which is a mark, two later ones and a last one. -/
def inOrder : List UInt8 :=
  Utf8.bytes ("\x7b\"type\":\"session_header\",\"wall_ms\":1000\x7d\n" ++
    "\x7b\"collector\":\"cpu\",\"wall_ms\":1000\x7d\n\x7b\"collector\":\"net\",\"wall_ms\":1000\x7d\n" ++
    "\x7b\"collector\":\"cpu\",\"wall_ms\":2000\x7d\n\x7b\"collector\":\"net\",\"wall_ms\":2500\x7d\n" ++
    "\x7b\"collector\":\"cpu\",\"wall_ms\":9000\x7d\n")

theorem window_of_chronological_inOrder :
    (records inOrder 1000 2000).length = 3 ∧
      (regionRead (getWindowIndex ([] : List (String × WindowIndex)) "s.jsonl" "" inOrder).1
        inOrder 1000 2000).filter (· ∈ records inOrder 1000 2000) = records inOrder 1000 2000 := by
  have hbytes : inOrder = Utf8.encode _ := congrArg Utf8.encode
    (Lines.toList_append_of (Lines.toList_append_of (Lines.toList_append_of String.toList_ofList
      String.toList_ofList) String.toList_ofList) String.toList_ofList)
  have hchronological : Chronological inOrder := by
    refine ⟨?_, ?_, ?_⟩
    · rw [hbytes]
      decide +kernel
    · rw [hbytes]
      decide +kernel
    · simp only [toOption_parse]
      rw [hbytes]
      decide +kernel
  refine ⟨?_, (window_of_chronological [] "s.jsonl" "" inOrder 1000 2000 hchronological
    (usedMarks_nil _ _)).mpr ?_⟩
  · rw [records, inWindow_eq, hbytes]
    decide +kernel
  · have hall : ∀ m ∈ marks inOrder, m.byteOffset = 0 := by
      rw [hbytes]
      decide +kernel
    intro r _ _ m hm _
    rw [hall m hm]
    exact Nat.zero_le _

/-! ## A wall clock that is set back -/

/-- The second record is past the window, the third one is in it. -/
def setBack : List UInt8 :=
  Utf8.bytes ("\x7b\"type\":\"session_header\",\"wall_ms\":1000\x7d\n" ++
    "\x7b\"collector\":\"cpu\",\"wall_ms\":5000\x7d\n\x7b\"collector\":\"cpu\",\"wall_ms\":2000\x7d\n")

theorem window_loses_record : ¬ ∀ (windows : List (String × WindowIndex)) (path evicted : String)
    (bs : List UInt8) (fromMs toMs : UInt64), fromMs ≤ toMs →
    (regionRead (getWindowIndex windows path evicted bs).1 bs fromMs toMs).filter
      (· ∈ records bs fromMs toMs) = records bs fromMs toMs := by
  intro hall
  have hbytes : setBack = Utf8.encode _ := congrArg Utf8.encode
    (Lines.toList_append_of String.toList_ofList String.toList_ofList)
  have hlost := hall [] "s.jsonl" "" setBack 1500 3000 (by decide)
  have hread : regionRead (getWindowIndex ([] : List (String × WindowIndex)) "s.jsonl" "" setBack).1
      setBack 1500 3000 = [] := by
    rw [hbytes]
    decide +kernel
  have hfile : (records setBack 1500 3000).length = 1 := by
    rw [records, inWindow_eq, hbytes]
    decide +kernel
  rw [hread, List.filter_nil] at hlost
  rw [← hlost] at hfile
  cases hfile

end PowerForensics.Sessions
