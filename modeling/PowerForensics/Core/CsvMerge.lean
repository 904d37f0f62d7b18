import PowerForensics.Core.Csv
import PowerForensics.System.Merging

/-! # The merge of the CSV sources

The heap holds the next row of every source that is not over, the earliest first. So
each row that comes out is the first one left in its source, before everything that is
left in earlier sources and not behind anything that is left in later ones.
-/

namespace PowerForensics.Session

open Merging

/-- The time of a row in the total order. -/
def timeKey (row : RawRow) : Int := row.monoS.totalRank

/-! ## The order of the heap -/

/-- The item leaves the heap first, or may. -/
def CsvMergeItem.First (a b : CsvMergeItem) : Prop := a.cmp b ≠ .lt

theorem first_iff (a b : CsvMergeItem) :
    a.First b ↔ a.t.totalRank < b.t.totalRank ∨ a.t.totalRank = b.t.totalRank ∧
      (a.block < b.block ∨ a.block = b.block ∧ a.seq ≤ b.seq) := by
  unfold CsvMergeItem.First CsvMergeItem.cmp Binary64.totalCmp
  simp only [ne_eq, Ordering.then_eq_lt, compare_lt_iff_lt, compare_eq_iff_eq]
  omega

instance : Std.Total fun a b : CsvMergeItem => a.cmp b ≠ .lt where
  total a b := by
    have hab := first_iff a b
    have hba := first_iff b a
    unfold CsvMergeItem.First at hab hba
    rw [hab, hba]
    omega

instance : IsTrans CsvMergeItem fun a b => a.cmp b ≠ .lt where
  trans a b c := by
    have hab := first_iff a b
    have hbc := first_iff b c
    have hac := first_iff a c
    unfold CsvMergeItem.First at hab hbc hac
    rw [hab, hbc, hac]
    omega

/-- A heap in its order. -/
def BinaryHeap.Ordered (heap : BinaryHeap) : Prop := List.Pairwise CsvMergeItem.First heap

theorem BinaryHeap.Ordered.push {heap : BinaryHeap} (hheap : heap.Ordered) (item : CsvMergeItem) :
    (heap.push item).Ordered :=
  List.Pairwise.orderedInsert (r := fun a b : CsvMergeItem => a.cmp b ≠ .lt) item heap hheap

theorem BinaryHeap.ordered_foldl_push (items : List CsvMergeItem) {heap : BinaryHeap}
    (hheap : heap.Ordered) : BinaryHeap.Ordered (items.foldl push heap) := by
  induction items generalizing heap with
  | nil => exact hheap
  | cons item items ih => exact ih (hheap.push item)

theorem BinaryHeap.foldl_push_perm (items : List CsvMergeItem) (heap : BinaryHeap) :
    List.Perm (items.foldl push heap) (items ++ heap) := by
  induction items generalizing heap with
  | nil => rfl
  | cons item items ih =>
      refine (ih (heap.push item)).trans ?_
      refine ((heap.push_perm item).append_left items).trans ?_
      exact List.perm_middle

/-! ## What is left of the sources -/

/-- The machine holds the sequences: the first element of each one that is not empty is in
the heap, under the number of its source, and the others are in the source. -/
structure Holds (m : CsvMerge) (seqs : List (List RawRow)) : Prop where
  ordered : m.heap.Ordered
  times : ∀ item ∈ m.heap, item.t = item.row.monoS
  blocks : (m.heap.map CsvMergeItem.block).Nodup
  front : ∀ item ∈ m.heap,
    seqs[item.block]? = some (item.row :: m.sources.getD item.block [])
  length : m.sources.length = seqs.length
  idle : ∀ block, block ∉ m.heap.map CsvMergeItem.block → ∀ seq ∈ seqs[block]?, seq = []

theorem mem_firstItems {sources : List (List RawRow)} {item : CsvMergeItem} :
    item ∈ firstItems sources ↔
      ∃ rest, sources[item.block]? = some (item.row :: rest) ∧ item.t = item.row.monoS ∧
        item.seq = 0 := by
  unfold firstItems
  simp only [List.mem_filterMap, Prod.exists, List.mem_zipIdx_iff_getElem?, Option.map_eq_some_iff,
    List.head?_eq_some_iff]
  constructor
  · rintro ⟨source, block, hsource, row, ⟨rest, rfl⟩, rfl⟩
    exact ⟨rest, hsource, rfl, rfl⟩
  · rintro ⟨rest, hsource, htime, hseq⟩
    obtain ⟨t, block, seq, row⟩ := item
    obtain rfl : t = row.monoS := htime
    obtain rfl : seq = 0 := hseq
    exact ⟨_, block, hsource, row, ⟨rest, rfl⟩, rfl⟩

/-- What is picked out of a list and keeps a key has keys in the order of the list. -/
theorem sublist_map_filterMap {α β γ : Type} {pick : α → Option β} {key : β → γ} {key' : α → γ}
    (hkey : ∀ a, ∀ b ∈ pick a, key b = key' a) (l : List α) :
    ((l.filterMap pick).map key).Sublist (l.map key') := by
  induction l with
  | nil => exact List.Sublist.refl _
  | cons a l ih =>
      cases hpick : pick a with
      | none =>
          rw [List.filterMap_cons_none hpick]
          exact ih.cons _
      | some b =>
          rw [List.filterMap_cons_some hpick, List.map_cons, List.map_cons, hkey a b hpick]
          exact ih.cons_cons _

theorem nodup_firstItems (sources : List (List RawRow)) :
    ((firstItems sources).map CsvMergeItem.block).Nodup := by
  have hrange : sources.zipIdx.map Prod.snd = List.range sources.length := by
    rw [List.zipIdx_map_snd, List.range_eq_range']
  refine (hrange ▸ sublist_map_filterMap ?_ sources.zipIdx).nodup List.nodup_range
  rintro ⟨source, block⟩ item hitem
  obtain ⟨row, -, rfl⟩ := Option.map_eq_some_iff.mp hitem
  rfl

theorem holds_start (sources : List (List RawRow)) : Holds (CsvMerge.start sources) sources where
  ordered := BinaryHeap.ordered_foldl_push _ List.Pairwise.nil
  times item hitem := by
    rw [CsvMerge.start, (BinaryHeap.foldl_push_perm _ _).mem_iff, List.append_nil] at hitem
    obtain ⟨_, _, htime, _⟩ := mem_firstItems.mp hitem
    exact htime
  blocks := by
    have hperm := (BinaryHeap.foldl_push_perm (firstItems sources) []).map CsvMergeItem.block
    rw [List.append_nil] at hperm
    exact hperm.nodup_iff.mpr (nodup_firstItems sources)
  front item hitem := by
    rw [CsvMerge.start, (BinaryHeap.foldl_push_perm _ _).mem_iff, List.append_nil] at hitem
    obtain ⟨rest, hsource, _⟩ := mem_firstItems.mp hitem
    simp [CsvMerge.start, hsource]
  length := List.length_map _
  idle block hblock seq hseq := by
    by_contra hne
    obtain ⟨row, rest, rfl⟩ := List.exists_cons_of_ne_nil hne
    apply hblock
    have hitem : (⟨row.monoS, block, 0, row⟩ : CsvMergeItem) ∈ firstItems sources :=
      mem_firstItems.mpr ⟨rest, hseq, rfl, rfl⟩
    refine List.mem_map.mpr ⟨⟨row.monoS, block, 0, row⟩, ?_, rfl⟩
    rw [CsvMerge.start, (BinaryHeap.foldl_push_perm _ _).mem_iff, List.append_nil]
    exact hitem

/-! ## A step -/

section Step

variable {m : CsvMerge} {seqs : List (List RawRow)}

theorem Holds.empty (hm : Holds m seqs) (hheap : m.heap = []) : ∀ seq ∈ seqs, seq = [] := by
  intro seq hseq
  obtain ⟨block, hblock⟩ := List.mem_iff_getElem?.mp hseq
  exact hm.idle block (by simp [hheap]) seq hblock

/-- Another source has nothing left, or its first row is in the heap. -/
theorem Holds.other (hm : Holds m seqs) {item : CsvMergeItem} {heap : BinaryHeap}
    (hheap : m.heap = item :: heap) {block : Nat} (hblock : block ≠ item.block)
    {seq : List RawRow} (hseq : seqs[block]? = some seq) {row : RawRow} (hrow : row ∈ seq.head?) :
    timeKey item.row < timeKey row ∨ timeKey item.row = timeKey row ∧ item.block < block := by
  have hmem : block ∈ m.heap.map CsvMergeItem.block := by
    by_contra hidle
    rw [hm.idle block hidle seq hseq] at hrow
    cases hrow
  obtain ⟨next, hnext, rfl⟩ := List.mem_map.mp hmem
  have hfront := hm.front next hnext
  rw [hseq, Option.some.injEq] at hfront
  obtain rfl : next.row = row := by simpa [hfront] using hrow
  have hordered := hm.ordered
  rw [hheap] at hordered hnext
  have hlater : next ∈ heap := (List.mem_cons.mp hnext).resolve_left fun h => hblock (by rw [h])
  have hfirst := (first_iff item next).mp ((List.pairwise_cons.mp hordered).1 next hlater)
  have htimes := hm.times next (hheap ▸ hnext)
  have htime := hm.times item (hheap ▸ List.mem_cons_self)
  rw [htimes, htime] at hfirst
  unfold timeKey
  omega

/-- What is left behind a step: the sequence of the item that left the heap without its first
element, and the other sequences. -/
theorem Holds.next (hm : Holds m seqs) {item : CsvMergeItem} {heap : BinaryHeap}
    (hheap : m.heap = item :: heap) :
    ∃ m', m.next = some (item.row, m') ∧
      Holds m' (seqs.set item.block (m.sources.getD item.block [])) := by
  have hordered := hm.ordered
  have hblocks := hm.blocks
  rw [hheap] at hordered hblocks
  obtain ⟨hfresh, hblocks⟩ := List.nodup_cons.mp hblocks
  have hitem := hm.front item (hheap ▸ List.mem_cons_self)
  have hlt : item.block < seqs.length := (List.getElem?_eq_some_iff.mp hitem).1
  have hne : ∀ next ∈ heap, item.block ≠ next.block := fun next hnext heq =>
    hfresh (heq ▸ List.mem_map_of_mem hnext)
  have htimes : ∀ next ∈ heap, next.t = next.row.monoS := fun next hnext =>
    hm.times next (hheap ▸ List.mem_cons_of_mem item hnext)
  have hfront : ∀ next ∈ heap,
      (seqs.set item.block (m.sources.getD item.block []))[next.block]? =
        some (next.row :: m.sources.getD next.block []) := by
    intro next hnext
    rw [List.getElem?_set_ne (hne next hnext)]
    exact hm.front next (hheap ▸ List.mem_cons_of_mem item hnext)
  have hidle : ∀ block, block ≠ item.block → block ∉ heap.map CsvMergeItem.block →
      ∀ seq ∈ (seqs.set item.block (m.sources.getD item.block []))[block]?, seq = [] := by
    intro block hblock hnone seq hseq
    rw [List.getElem?_set_ne hblock.symm] at hseq
    refine hm.idle block ?_ seq hseq
    rw [hheap, List.map_cons, List.mem_cons, not_or]
    exact ⟨hblock, hnone⟩
  cases hsource : m.sources.getD item.block [] with
  | nil =>
      -- the source is over
      have hnext : m.next = some (item.row, { m with heap }) := by
        simp only [CsvMerge.next, hheap, hsource]
      rw [hsource] at hfront hidle
      refine ⟨_, hnext, ?_⟩
      exact {
        ordered := (List.pairwise_cons.mp hordered).2
        times := htimes
        blocks := hblocks
        front := hfront
        length := by rw [List.length_set]; exact hm.length
        idle := fun block hnone seq hseq => by
          by_cases hblock : block = item.block
          · rw [hblock, List.getElem?_set_self hlt] at hseq
            exact (Option.some.inj hseq).symm
          · exact hidle block hblock hnone seq hseq }
  | cons row rest =>
      let entering : CsvMergeItem :=
        ⟨row.monoS, item.block, m.nextSeq.getD item.block 0, row⟩
      have hnext : m.next = some (item.row,
          { sources := m.sources.set item.block rest
            nextSeq := m.nextSeq.set item.block (m.nextSeq.getD item.block 0 + 1)
            heap := heap.push entering }) := by
        simp only [CsvMerge.next, hheap, hsource, entering]
      rw [hsource] at hfront hidle
      refine ⟨_, hnext, ?_⟩
      have hperm := heap.push_perm entering
      have hmem := fun block => (hperm.map CsvMergeItem.block).mem_iff (a := block)
      exact {
        ordered := BinaryHeap.Ordered.push (List.pairwise_cons.mp hordered).2 _
        times := fun next hnext => by
          rcases List.mem_cons.mp (hperm.mem_iff.mp hnext) with rfl | hnext
          · rfl
          · exact htimes next hnext
        blocks := by
          rw [(hperm.map CsvMergeItem.block).nodup_iff, List.map_cons]
          exact List.nodup_cons.mpr ⟨hfresh, hblocks⟩
        front := fun next hnext => by
          rcases List.mem_cons.mp (hperm.mem_iff.mp hnext) with rfl | hnext
          · dsimp only
            rw [List.getElem?_set_self hlt, List.getD_eq_getElem?_getD,
              List.getElem?_set_self (hm.length ▸ hlt), Option.getD_some]
          · rw [hfront next hnext, List.getD_eq_getElem?_getD, List.getD_eq_getElem?_getD,
              List.getElem?_set_ne (hne next hnext)]
        length := by rw [List.length_set, List.length_set]; exact hm.length
        idle := fun block hnone seq hseq => by
          rw [hmem, List.map_cons, List.mem_cons, not_or] at hnone
          exact hidle block hnone.1 hnone.2 seq hseq }

end Step

/-! ## The whole merge -/

/-- The machine gives the merge of the sequences that it holds. -/
theorem Holds.merges {m : CsvMerge} {seqs : List (List RawRow)} (hm : Holds m seqs) :
    Merges timeKey seqs m.rows := by
  induction m using CsvMerge.rows.induct generalizing seqs with
  | case1 m hnone =>
      -- a machine that gives no row has an empty heap, and then no sequence has one
      have hheap : m.heap = [] := by
        cases hheap : m.heap with
        | nil => rfl
        | cons item heap =>
            obtain ⟨m', hnext, -⟩ := hm.next hheap
            rw [hnone] at hnext
            cases hnext
      rw [CsvMerge.rows.eq_def]
      split
      · exact .done (hm.empty hheap)
      next row m' hnext =>
        rw [hnone] at hnext
        cases hnext
  | case2 m row m' hsome ih =>
      rw [CsvMerge.rows.eq_def]
      split
      next hnone =>
        rw [hsome] at hnone
        cases hnone
      next row₂ m₂ hsome₂ =>
        rw [hsome] at hsome₂
        obtain ⟨rfl, rfl⟩ := Prod.mk.inj (Option.some.inj hsome₂)
        cases hheap : m.heap with
        | nil =>
            rw [CsvMerge.next, hheap] at hsome
            cases hsome
        | cons item heap =>
            obtain ⟨m₃, hnext, hholds⟩ := hm.next hheap
            rw [hsome] at hnext
            obtain ⟨rfl, rfl⟩ := Prod.mk.inj (Option.some.inj hnext)
            have hitem := hm.front item (hheap ▸ List.mem_cons_self)
            obtain ⟨hlt, hget⟩ := List.getElem?_eq_some_iff.mp hitem
            -- the row is the head of its sequence, and no head of another is to be taken first
            have hsplit : seqs = seqs.take item.block ++
                (item.row :: m.sources.getD item.block []) :: seqs.drop (item.block + 1) := by
              rw [← hget, List.getElem_cons_drop, List.take_append_drop]
            have hset : seqs.set item.block (m.sources.getD item.block []) =
                seqs.take item.block ++
                  m.sources.getD item.block [] :: seqs.drop (item.block + 1) :=
              List.set_eq_take_cons_drop _ hlt
            have hrest := ih hholds
            rw [hset] at hrest
            rw [hsplit]
            refine .take ?_ ?_ hrest
            · intro other hother y hy
              obtain ⟨block, hblock, rfl⟩ := List.mem_iff_getElem.mp hother
              rw [List.length_take] at hblock
              rw [List.getElem_take] at hy
              have hne : block ≠ item.block := by omega
              have := hm.other hheap hne (List.getElem?_eq_getElem (by omega)) hy
              omega
            · intro other hother y hy
              obtain ⟨block, hblock, rfl⟩ := List.mem_iff_getElem.mp hother
              rw [List.length_drop] at hblock
              rw [List.getElem_drop] at hy
              have hne : item.block + 1 + block ≠ item.block := by omega
              have := hm.other hheap hne (List.getElem?_eq_getElem (by omega)) hy
              omega

/-! ## Series that ascend in time -/

/-- Every series of the session is ascending in time. -/
structure SeriesAscending (s : SessionData) : Prop where
  battery : Ascending (fun p => p.t.totalRank) s.battery
  cpu : Ascending (fun p => p.t.totalRank) s.cpu
  batteryExtra : Ascending (fun p => p.t.totalRank) s.batteryExtra
  gpu : Ascending (fun p => p.t.totalRank) s.gpu
  procs : Ascending (fun p => p.t.totalRank) s.procs
  display : Ascending (fun p => p.t.totalRank) s.display
  net : Ascending (fun p => p.t.totalRank) s.net
  storage : Ascending (fun p => p.t.totalRank) s.storage
  usb : Ascending (fun p => p.t.totalRank) s.usb
  selfmon : Ascending (fun p => p.t.totalRank) s.selfmon

/-- Points in order whose rows carry their times give rows in order. -/
theorem ascending_flatMap {π : Type} {time : π → Binary64} {rows : π → List RawRow}
    (hrows : ∀ p, ∀ row ∈ rows p, row.monoS = time p) {points : List π}
    (hpoints : Ascending (fun p => (time p).totalRank) points) :
    Ascending timeKey (points.flatMap rows) := by
  unfold Ascending timeKey at *
  rw [List.pairwise_flatMap]
  refine ⟨fun p _ => List.pairwise_of_forall_mem_list fun a ha b hb => ?_, ?_⟩
  · rw [hrows p a ha, hrows p b hb]
  · refine hpoints.imp fun {p q} hpq a ha b hb => ?_
    rw [hrows p a ha, hrows q b hb]
    exact hpq

theorem ascending_csvSources {s : SessionData} (hs : SeriesAscending s) :
    ∀ source ∈ csvSources s, Ascending timeKey source := by
  simp only [csvSources, List.forall_mem_cons, List.not_mem_nil, false_imp_iff, implies_true,
    and_true]
  refine ⟨ascending_flatMap (fun p => ?_) hs.battery, ascending_flatMap (fun p => ?_) hs.cpu,
    ascending_flatMap (fun p => ?_) hs.batteryExtra, ascending_flatMap (fun p => ?_) hs.gpu,
    ascending_flatMap (fun p => ?_) hs.procs, ascending_flatMap (fun p => ?_) hs.display,
    ascending_flatMap (fun p => ?_) hs.net, ascending_flatMap (fun p => ?_) hs.storage,
    ascending_flatMap (fun p => ?_) hs.usb, ascending_flatMap (fun p => ?_) hs.selfmon⟩
  · simp [batteryRows, csvRow]
  · simp only [cpuRows, coreRows, csvRow, List.forall_mem_append, List.forall_mem_map,
      List.forall_mem_flatMap]
    simp
  · simp [batteryExtraRows, csvRow]
  · simp only [gpuRows, adapterRows, csvRow, List.forall_mem_append, List.forall_mem_map,
      List.forall_mem_flatMap]
    simp
  · simp [procRows, csvRow]
  · simp only [displayRows, displayEntryRows, csvRow, List.forall_mem_flatMap]
    simp
  · simp only [netRows, csvRow, List.forall_mem_append, List.forall_mem_map,
      List.forall_mem_flatMap]
    simp
  · simp [storageRows, csvRow]
  · simp [usbRows, csvRow]
  · simp [selfRows, csvRow]

/-- For series that are ascending in time the merge gives the stable sort by time of all rows
of all sources in the order of the sources: every row once, in nondecreasing time, and rows
of one time in the order of the sources. -/
theorem rawRowsIter_eq_stableSort (s : SessionData) (hs : SeriesAscending s) :
    rawRowsIter s = stableSort timeKey (csvSources s).flatten ∧
      (rawRowsIter s).Perm (csvSources s).flatten ∧
      Ascending timeKey (rawRowsIter s) ∧
      ∀ time, (rawRowsIter s).filter (fun row => timeKey row = time) =
        (csvSources s).flatten.filter fun row => timeKey row = time := by
  have hmerge : rawRowsIter s = stableSort timeKey (csvSources s).flatten :=
    (holds_start (csvSources s)).merges.eq_stableSort (ascending_csvSources hs)
  refine ⟨hmerge, ?_, ?_, fun time => ?_⟩
  · rw [hmerge]
    exact stableSort_perm timeKey _
  · rw [hmerge]
    exact ascending_stableSort timeKey _
  · rw [hmerge]
    exact filter_stableSort timeKey time _

/-- A point of a later series between two points of an earlier one. -/
def interleavedSeries : SessionData :=
  { (default : SessionData) with
    battery := [{ (default : BatteryPoint) with t := 0.0 }, { (default : BatteryPoint) with t := 2.0 }]
    cpu := [{ (default : CpuPoint) with t := 1.0 }] }

theorem rawRowsIter_eq_stableSort_sample :
    SeriesAscending interleavedSeries ∧
      (rawRowsIter interleavedSeries).map RawRow.collector =
        List.replicate 4 "battery" ++ List.replicate 6 "cpu" ++ List.replicate 4 "battery" := by
  have hseries : SeriesAscending interleavedSeries := by
    constructor <;> simp only [Ascending] <;> decide +kernel
  refine ⟨hseries, ?_⟩
  rw [(rawRowsIter_eq_stableSort interleavedSeries hseries).1]
  decide +kernel

end PowerForensics.Session
