import Mathlib.Logic.Relation
import PowerForensics.Core.SessionFaults
import PowerForensics.Gui.Sessions
import PowerForensics.Gui.SessionScan

/-! # The session index

A listing of the session directory reuses what an earlier listing stored about a file of the
same name, size and modification second. What is stored holds the path that the file had then,
so a directory that was moved with its index is listed under its former location.
-/

namespace PowerForensics.Index

open Json Session Sessions

/-! ## Entries -/

structure SessionListEntry where
  file : String
  path : String
  label : String
  note : String
  startWallMs : UInt64
  endWallMs : UInt64
  durationS : Binary64
  status : String
  recovered : Bool
  mode : String
  samples : UInt64
  intervalMs : UInt64
  dischargeMedianW : Option Binary64
  dischargeWh : Option Binary64
  chargeWh : Option Binary64
  cpuMedianPct : Option Binary64
  coveragePct : Option Binary64
  discontinuities : Option Binary64
  markers : Option Nat
  collectors : List String
  stats : Option SessionStats
  bytes : Nat
  mtimeS : Option Nat
  deriving DecidableEq

/-- A file of the session directory. The modification second is not known where the file system
has none or one before the epoch. -/
structure File where
  name : String
  bytes : List UInt8
  mtimeS : Option Nat

structure Fingerprint where
  bytes : Nat
  mtimeS : Nat
  deriving DecidableEq

def File.fingerprint (f : File) : Fingerprint := ⟨f.bytes.length, f.mtimeS.getD 0⟩

/-- The path of a file in a directory. -/
def joinPath (dir name : String) : String :=
  if dir.toList.getLast? = some '\\' ∨ dir.toList.getLast? = some '/' then dir ++ name
  else dir ++ "\\" ++ name

/-- A number that counts, from an optional field. -/
def countAt (v : Option JVal) (key : String) : UInt64 :=
  asU64 (max ((v.bind (·.numAt key)).getD 0.0) 0.0)

def wallAt (v : Option JVal) : UInt64 := asU64 ((v.bind (·.numAt "wall_ms")).getD 0.0)

def isRecovered (footer : JVal) : Bool :=
  (footer.boolAt "recovered").getD false ||
    ((footer.get "summary").bind (·.boolAt "recovered")).getD false

def unreadableEntry (dir : String) (f : File) : SessionListEntry where
  file := f.name
  path := joinPath dir f.name
  label := f.name
  note := ""
  startWallMs := 0
  endWallMs := 0
  durationS := 0
  status := "unreadable"
  recovered := false
  mode := "unreadable"
  samples := 0
  intervalMs := 0
  dischargeMedianW := none
  dischargeWh := none
  chargeWh := none
  cpuMedianPct := none
  coveragePct := none
  discontinuities := none
  markers := none
  collectors := []
  stats := none
  bytes := 0
  mtimeS := none

/-- What the head, the tail and the scan tell about a file. -/
def entryOf (dir : String) (f : File) (parts : HeadTail) : SessionListEntry :=
  let header := headerJson parts.head
  let footer := (footerLine parts.tail).bind fun line => (parse (String.ofList line)).toOption
  let summary := footer.bind (·.get "summary")
  let snum := fun key => summary.bind (·.numAt key)
  let startWallMs := wallAt header
  let recovered := footer.any isRecovered
  let status :=
    if footer.isSome then "ok" else if header.isSome then "incomplete" else "no-header"
  let endWallMs :=
    if 0 < wallAt footer then wallAt footer
    else (f.mtimeS.map fun s => UInt64.ofNat s * 1000).getD startWallMs
  let scan := scanDetails f.bytes
  { file := f.name
    path := joinPath dir f.name
    label := f.name
    note := (header.bind (·.strAt "note")).getD ""
    startWallMs, endWallMs
    durationS :=
      if startWallMs < endWallMs then ofU64 (endWallMs - startWallMs) / 1000.0 else 0.0
    status, recovered
    mode :=
      if status ≠ "ok" then "incomplete" else if recovered then "recovered" else "recorded"
    samples := countAt summary "samples"
    intervalMs := countAt header "interval_ms"
    dischargeMedianW := snum "discharge_median_w"
    dischargeWh := snum "discharge_wh"
    chargeWh := snum "charge_wh"
    cpuMedianPct := snum "cpu_utility_median_pct"
    coveragePct := snum "discharge_coverage_pct"
    discontinuities := snum "discharge_discontinuities"
    markers := scan.map ScanDetails.markers
    collectors := (scan.map ScanDetails.collectors).getD []
    stats := scan.map fun scan =>
      { scan.stats with discontinuities := snum "discharge_discontinuities" }
    bytes := parts.size
    mtimeS := f.mtimeS }

def buildEntryOrUnreadable (dir : String) (f : File) : SessionListEntry :=
  match readHeadTail f.bytes with
  | .ok parts => entryOf dir f parts
  | .error _ => unreadableEntry dir f

/-! ## The index and the listing -/

def indexSchema : Nat := 2

structure SessionIndex where
  schema : Nat
  dir : String
  entries : List SessionListEntry
  deriving DecidableEq

/-- The fractions of an entry; all but the duration may be unknown. -/
def SessionListEntry.fractions : List (SessionListEntry → Option Binary64) :=
  [fun e => some e.durationS, (·.dischargeMedianW), (·.dischargeWh), (·.chargeWh),
    (·.cpuMedianPct), (·.coveragePct), (·.discontinuities), fun e => e.stats.bind (·.observedHz),
    fun e => e.stats.bind (·.discontinuities), fun e => e.stats.bind (·.durationS)]

/-- The fractions that are known. -/
def SessionListEntry.numbers (e : SessionListEntry) : List Binary64 := fractions.filterMap (· e)

/-- How an index is written as text and read back. -/
structure Codec where
  print : SessionIndex → Option String
  parse : String → Option SessionIndex

structure Directory where
  path : String
  files : List File
  /-- The text of the index file. -/
  index : Option String

def SessionIndex.empty (dir : String) : SessionIndex := ⟨indexSchema, dir, []⟩

/-- What comes behind the last dot of a name that does not start with it. -/
def extension (name : String) : Option (List Char) :=
  if (name.toList.rdropWhile (· ≠ '.')).dropLast = [] then none
  else some (name.toList.rtakeWhile (· ≠ '.'))

/-- The session files in the order of their names. -/
def Directory.sessionFiles (d : Directory) : List File :=
  (d.files.filter fun f => extension f.name = some "jsonl".toList).mergeSort fun f g =>
    f.name ≤ g.name

section Codec

variable (codec : Codec)

def SessionIndex.load (d : Directory) : Option SessionIndex :=
  (d.index.bind codec.parse).filter (·.schema = indexSchema)

def cacheOf (d : Directory) : SessionIndex :=
  (SessionIndex.load codec d).getD (.empty d.path)

/-- The stored entry of a file that still has the same fingerprint. -/
def reusable (cache : SessionIndex) (f : File) : Option SessionListEntry :=
  cache.entries.find? fun e =>
    e.file = f.name ∧ e.bytes = f.fingerprint.bytes ∧ e.mtimeS = some f.fingerprint.mtimeS

def listSessions (d : Directory) : List SessionListEntry :=
  d.sessionFiles.map fun f => (reusable (cacheOf codec d) f).getD (buildEntryOrUnreadable d.path f)

/-- The index is written when a file was added, removed or built anew. -/
def changed (d : Directory) : Bool :=
  (cacheOf codec d).entries.length ≠ d.sessionFiles.length ∨
    ∃ f ∈ d.sessionFiles, (reusable (cacheOf codec d) f).isNone

/-- The directory behind a listing; a write of the index may fail. -/
def listed (d : Directory) (saves : Bool) : Directory :=
  if changed codec d ∧ saves then
    match codec.print { cacheOf codec d with entries := listSessions codec d } with
    | some text => { d with index := some text }
    | none => d
  else d

def Directory.forget (d : Directory) : Directory := { d with index := none }

/-! ## Reused entries -/

/-- The same file in another directory only has another path. -/
theorem buildEntry_path (dir dir' : String) (f : File) :
    buildEntryOrUnreadable dir f =
      { buildEntryOrUnreadable dir' f with path := joinPath dir f.name } := by
  unfold buildEntryOrUnreadable
  split <;> rfl

theorem buildEntry_file (dir : String) (f : File) :
    (buildEntryOrUnreadable dir f).file = f.name := by
  unfold buildEntryOrUnreadable
  split <;> rfl

/-- An entry that can be reused has the fingerprint of the file it was built from. -/
theorem buildEntry_fingerprint {dir : String} {f : File} {mtime : Nat}
    (hmtime : (buildEntryOrUnreadable dir f).mtimeS = some mtime) :
    f.fingerprint = ⟨(buildEntryOrUnreadable dir f).bytes, mtime⟩ := by
  unfold buildEntryOrUnreadable at hmtime ⊢
  cases hread : readHeadTail f.bytes with
  | error e =>
      rw [hread] at hmtime
      cases hmtime
  | ok parts =>
      rw [hread] at hmtime
      have hsize : parts.size = f.bytes.length := by
        unfold readHeadTail at hread
        obtain ⟨tail, -, hparts⟩ := bind_eq_ok.mp hread
        obtain rfl := Except.ok.inj hparts
        rfl
      have hknown : f.mtimeS = some mtime := hmtime
      simp [File.fingerprint, entryOf, hsize, hknown]

/-- A listing is the one without an index exactly if every entry it reuses is the one it would
build. -/
theorem listSessions_eq_forget_iff (d : Directory) :
    listSessions codec d = listSessions codec d.forget ↔
      ∀ f ∈ d.sessionFiles, ∀ e ∈ reusable (cacheOf codec d) f,
        e = buildEntryOrUnreadable d.path f := by
  have hfresh : listSessions codec d.forget =
      d.sessionFiles.map (buildEntryOrUnreadable d.path) := rfl
  rw [hfresh, listSessions, List.map_inj_left]
  apply forall₂_congr
  intro f hf
  cases reusable (cacheOf codec d) f with
  | none => simp
  | some e => simp

end Codec

/-! ## Histories of a directory -/

/-- What happens to the directory between listings and in them. -/
inductive Action where
  | change (files : List File)
  | move (path : String)
  | list (saves : Bool)
  | rebuild (saves : Bool)

def step (codec : Codec) (d : Directory) : Action → Directory
  | .change files => { d with files }
  | .move path => { d with path }
  | .list saves => listed codec d saves
  | .rebuild saves => listed codec d.forget saves

def history (codec : Codec) (d : Directory) (actions : List Action) : Directory :=
  actions.foldl (step codec) d

/-- The files that an action brings in. -/
def Action.files : Action → List File
  | .change files => files
  | _ => []

/-- The place that an action moves the directory to. -/
def Action.place : Action → List String
  | .move path => [path]
  | _ => []

/-- The versions of the files in a history. -/
def versionsOf (d : Directory) (actions : List Action) : List File :=
  d.files ++ actions.flatMap Action.files

/-- The places of the directory in a history. -/
def placesOf (d : Directory) (actions : List Action) : List String :=
  d.path :: actions.flatMap Action.place

/-- No two versions of a file among these have the same size and modification second. -/
def Distinguished (versions : List File) : Prop :=
  ∀ f ∈ versions, ∀ g ∈ versions, f.name = g.name → f.fingerprint = g.fingerprint → f = g

/-- Statistics that were written, and read with the fractions that their texts give. One that is
written as null is not known any more. -/
def SessionStats.reread (read : Binary64 → Option Binary64) (s : SessionStats) : SessionStats :=
  { s with
    observedHz := s.observedHz.bind read
    discontinuities := s.discontinuities.bind read
    durationS := s.durationS.bind read }

/-- An entry that was written and read. It cannot do without its duration. -/
def SessionListEntry.reread (read : Binary64 → Option Binary64) (e : SessionListEntry) :
    Option SessionListEntry :=
  (read e.durationS).map fun durationS =>
    { e with
      durationS
      dischargeMedianW := e.dischargeMedianW.bind read
      dischargeWh := e.dischargeWh.bind read
      chargeWh := e.chargeWh.bind read
      cpuMedianPct := e.cpuMedianPct.bind read
      coveragePct := e.coveragePct.bind read
      discontinuities := e.discontinuities.bind read
      stats := e.stats.map (SessionStats.reread read) }

/-- What is written is read back but for the fractions, of which each is read from its own text. -/
def Codec.Faithful (codec : Codec) (read : Binary64 → Option Binary64) : Prop :=
  ∀ index text index', codec.print index = some text → codec.parse text = some index' →
    List.Forall₂ (fun e e' => e.reread read = some e') index.entries index'.entries

/-- One entry is read where the other one was written. -/
def Reread (read : Binary64 → Option Binary64) (e e' : SessionListEntry) : Prop :=
  e.reread read = some e'

/-- A number comes back after it was written and read some number of times. -/
def Returns (read : Binary64 → Option Binary64) (x : Binary64) : Prop :=
  Relation.TransGen (fun y z => read y = some z) x x

open Relation in
/-- The directory is one of the places and holds versions, and the entries that are stored were
built from versions in one of the places, and written and read since. -/
structure Stored (codec : Codec) (read : Binary64 → Option Binary64) (places : List String)
    (versions : List File) (d : Directory) : Prop where
  place : d.path ∈ places
  present : ∀ f ∈ d.files, f ∈ versions
  built : ∀ text ∈ d.index, ∀ index ∈ codec.parse text, ∀ e ∈ index.entries,
    ∃ dir ∈ places, ∃ f ∈ versions, TransGen (Reread read) (buildEntryOrUnreadable dir f) e

/-! ## Numbers that are written and read -/

section Reread

open SessionListEntry Relation

variable {read : Binary64 → Option Binary64} {e e' : SessionListEntry}

theorem mem_numbers {x : Binary64} : x ∈ e.numbers ↔ ∃ field ∈ fractions, field e = some x :=
  List.mem_filterMap

theorem bind_reread (stats : Option SessionStats) {part : SessionStats → Option Binary64}
    (hpart : ∀ s, part (s.reread read) = (part s).bind read) :
    (stats.map (SessionStats.reread read)).bind part = (stats.bind part).bind read := by
  cases stats with
  | none => rfl
  | some s => exact hpart s

theorem Reread.fraction (h : Reread read e e') {field : SessionListEntry → Option Binary64}
    (hfield : field ∈ fractions) : field e' = (field e).bind read := by
  obtain ⟨durationS, hduration, rfl⟩ := Option.map_eq_some_iff.mp h
  simp only [fractions, List.mem_cons, List.not_mem_nil, or_false] at hfield
  obtain rfl | rfl | rfl | rfl | rfl | rfl | rfl | rfl | rfl | rfl := hfield
  · exact hduration.symm
  · rfl
  · rfl
  · rfl
  · rfl
  · rfl
  · rfl
  · exact bind_reread e.stats fun _ => rfl
  · exact bind_reread e.stats fun _ => rfl
  · exact bind_reread e.stats fun _ => rfl

/-- An entry all of whose numbers are read as they were written comes back as it was. -/
theorem SessionListEntry.reread_eq_self (hkept : ∀ x ∈ e.numbers, read x = some x) :
    e.reread read = some e := by
  have hfields : ∀ field ∈ fractions, (field e).bind read = field e := by
    intro field hfield
    cases hx : field e with
    | none => rfl
    | some x => exact hkept x (mem_numbers.mpr ⟨field, hfield, hx⟩)
  simp only [fractions, List.forall_mem_cons, Option.bind_some] at hfields
  obtain ⟨hduration, hmedian, hdischarge, hcharge, hcpu, hcoverage, hdisc, hhz, hdisc', hspan, -⟩ :=
    hfields
  have hstats : e.stats.map (SessionStats.reread read) = e.stats := by
    cases hstats : e.stats with
    | none => rfl
    | some stats =>
        simp only [hstats, Option.bind_some] at hhz hdisc' hspan
        simp only [Option.map_some, SessionStats.reread, hhz, hdisc', hspan]
  simp only [reread, hduration, hmedian, hdischarge, hcharge, hcpu, hcoverage, hdisc, hstats,
    Option.map_some]

theorem Reread.eq_of_kept (h : TransGen (Reread read) e e')
    (hkept : ∀ x ∈ e.numbers, read x = some x) : e' = e := by
  induction h with
  | single h => exact Option.some.inj (h.symm.trans (reread_eq_self hkept))
  | tail _ h ih =>
      rw [ih] at h
      exact Option.some.inj (h.symm.trans (reread_eq_self hkept))

/-- Only the fractions of an entry may come back as others. -/
theorem Reread.frame (h : TransGen (Reread read) e e') :
    e'.file = e.file ∧ e'.path = e.path ∧ e'.bytes = e.bytes ∧ e'.mtimeS = e.mtimeS := by
  have hstep : ∀ e e', Reread read e e' →
      e'.file = e.file ∧ e'.path = e.path ∧ e'.bytes = e.bytes ∧ e'.mtimeS = e.mtimeS := by
    intro e e' h
    obtain ⟨durationS, -, rfl⟩ := Option.map_eq_some_iff.mp h
    exact ⟨rfl, rfl, rfl, rfl⟩
  induction h with
  | single h => exact hstep _ _ h
  | tail _ h ih =>
      obtain ⟨hfile, hpath, hbytes, hmtime⟩ := hstep _ _ h
      exact ⟨hfile.trans ih.1, hpath.trans ih.2.1, hbytes.trans ih.2.2.1, hmtime.trans ih.2.2.2⟩

theorem transGen_of_bind {o o' : Option Binary64}
    (h : TransGen (fun o o' => o' = o.bind read) o o') {x y : Binary64} (hx : o = some x)
    (hy : o' = some y) : TransGen (fun y z => read y = some z) x y := by
  induction h generalizing y with
  | single h => exact .single (by rw [← hy, h, hx, Option.bind_some])
  | tail _ h ih =>
      obtain ⟨z, hz, hzy⟩ := Option.bind_eq_some_iff.mp (h.symm.trans hy)
      exact (ih hz).tail hzy

/-- The numbers of an entry that comes back, but for its path, come back. -/
theorem Reread.returns {path : String} (h : TransGen (Reread read) e { e with path }) :
    ∀ x ∈ e.numbers, Returns read x := by
  intro x hx
  obtain ⟨field, hfield, hfx⟩ := mem_numbers.mp hx
  have hsame : field { e with path } = some x := by
    rw [← hfx]
    simp only [fractions, List.mem_cons, List.not_mem_nil, or_false] at hfield
    obtain rfl | rfl | rfl | rfl | rfl | rfl | rfl | rfl | rfl | rfl := hfield <;> rfl
  exact transGen_of_bind (h.lift field fun _ _ hstep => hstep.fraction hfield) hfx hsame

end Reread

section Histories

open Relation SessionListEntry

variable {codec : Codec} {read : Binary64 → Option Binary64} {places : List String}
  {versions : List File} {d : Directory}

theorem mem_sessionFiles {f : File} (hf : f ∈ d.sessionFiles) : f ∈ d.files :=
  (List.mem_filter.mp (List.mem_mergeSort.mp hf)).1

theorem Stored.cache (hstored : Stored codec read places versions d) :
    ∀ e ∈ (cacheOf codec d).entries,
      ∃ dir ∈ places, ∃ f ∈ versions, TransGen (Reread read) (buildEntryOrUnreadable dir f) e := by
  intro e he
  unfold cacheOf SessionIndex.load at he
  cases hindex : d.index with
  | none =>
      rw [hindex] at he
      cases he
  | some text =>
      rw [hindex, Option.bind_some] at he
      cases hparse : codec.parse text with
      | none =>
          rw [hparse] at he
          cases he
      | some index =>
          rw [hparse, Option.filter_some] at he
          split at he
          · exact hstored.built text hindex index hparse e he
          · cases he

/-- An entry of a listing is new, or it was written and read. -/
theorem Stored.listing (hstored : Stored codec read places versions d) :
    ∀ e ∈ listSessions codec d, ∃ dir ∈ places, ∃ f ∈ versions,
      ReflTransGen (Reread read) (buildEntryOrUnreadable dir f) e := by
  intro e he
  obtain ⟨f, hf, rfl⟩ := List.mem_map.mp he
  cases hreuse : reusable (cacheOf codec d) f with
  | none =>
      exact ⟨d.path, hstored.place, f, hstored.present f (mem_sessionFiles hf), .refl⟩
  | some e =>
      obtain ⟨dir, hdir, g, hg, hread⟩ := hstored.cache e (List.mem_of_find?_eq_some hreuse)
      exact ⟨dir, hdir, g, hg, hread.to_reflTransGen⟩

theorem Stored.listed (hcodec : codec.Faithful read) (hstored : Stored codec read places versions d)
    (saves : Bool) : Stored codec read places versions (listed codec d saves) := by
  unfold Index.listed
  split
  · cases hprint : codec.print { cacheOf codec d with entries := listSessions codec d } with
    | none => exact hstored
    | some text =>
        refine ⟨hstored.place, hstored.present, fun text' htext index hindex e' he' => ?_⟩
        obtain rfl := Option.some.inj htext
        have hentries := hcodec _ _ _ hprint hindex
        obtain ⟨k, hk, rfl⟩ := List.getElem_of_mem he'
        have hlength := hentries.length_eq
        obtain ⟨dir, hdir, f, hf, hbuilt⟩ :=
          hstored.listing _ (List.getElem_mem (hlength ▸ hk))
        exact ⟨dir, hdir, f, hf, .tail' hbuilt (hentries.get (hlength ▸ hk) hk)⟩
  · exact hstored

theorem Stored.forget (hstored : Stored codec read places versions d) :
    Stored codec read places versions d.forget :=
  ⟨hstored.place, hstored.present, nofun⟩

theorem Stored.step (hcodec : codec.Faithful read) (hstored : Stored codec read places versions d)
    (a : Action) (hplaces : ∀ path ∈ a.place, path ∈ places)
    (hfiles : ∀ f ∈ a.files, f ∈ versions) :
    Stored codec read places versions (step codec d a) := by
  cases a with
  | change files => exact ⟨hstored.place, hfiles, hstored.built⟩
  | move path => exact ⟨hplaces path List.mem_cons_self, hstored.present, hstored.built⟩
  | list saves => exact hstored.listed hcodec saves
  | rebuild saves => exact hstored.forget.listed hcodec saves

theorem Stored.history (hcodec : codec.Faithful read)
    (hstored : Stored codec read places versions d) {actions : List Action}
    (hplaces : ∀ a ∈ actions, ∀ path ∈ a.place, path ∈ places)
    (hfiles : ∀ a ∈ actions, ∀ f ∈ a.files, f ∈ versions) :
    Stored codec read places versions (history codec d actions) := by
  induction actions generalizing d with
  | nil => exact hstored
  | cons a actions ih =>
      rw [List.forall_mem_cons] at hplaces hfiles
      exact ih (hstored.step hcodec a hplaces.1 hfiles.1) hplaces.2 hfiles.2

/-- A reused entry was built from its file in one of the places, and written and read since. -/
theorem Stored.reused (hversions : Distinguished versions)
    (hstored : Stored codec read places versions d) {f : File} (hf : f ∈ d.sessionFiles)
    {e : SessionListEntry} (he : reusable (cacheOf codec d) f = some e) :
    ∃ dir ∈ places, TransGen (Reread read) (buildEntryOrUnreadable dir f) e := by
  obtain ⟨dir, hdir, g, hg, hread⟩ := hstored.cache e (List.mem_of_find?_eq_some he)
  have hmatch := List.find?_some he
  simp only [decide_eq_true_eq] at hmatch
  obtain ⟨hfile, -, hbytes, hmtime⟩ := Reread.frame hread
  rw [hfile, hbytes, hmtime, buildEntry_file] at hmatch
  have hfingerprint := buildEntry_fingerprint hmatch.2.2
  rw [hmatch.2.1] at hfingerprint
  obtain rfl : g = f :=
    hversions g hg f (hstored.present f (mem_sessionFiles hf)) hmatch.1 hfingerprint
  exact ⟨dir, hdir, hread⟩

theorem buildEntry_numbers (dir dir' : String) (f : File) :
    (buildEntryOrUnreadable dir f).numbers = (buildEntryOrUnreadable dir' f).numbers := by
  rw [buildEntry_path dir dir' f]
  rfl

/-- The numbers of a reused entry that is the one that would be built come back. -/
theorem Stored.reused_returns (hversions : Distinguished versions)
    (hstored : Stored codec read places versions d) {f : File} (hf : f ∈ d.sessionFiles)
    (he : reusable (cacheOf codec d) f = some (buildEntryOrUnreadable d.path f)) :
    ∀ x ∈ (buildEntryOrUnreadable d.path f).numbers, Returns read x := by
  obtain ⟨dir, -, hread⟩ := hstored.reused hversions hf he
  rw [buildEntry_path d.path dir f] at hread
  rw [buildEntry_numbers d.path dir f]
  exact Reread.returns hread

/-- A reused entry whose numbers are read as they were written is the one that would be built
exactly if it has the present path. -/
theorem Stored.reused_iff (hversions : Distinguished versions)
    (hstored : Stored codec read places versions d) {f : File} (hf : f ∈ d.sessionFiles)
    {e : SessionListEntry} (he : reusable (cacheOf codec d) f = some e)
    (hkept : ∀ x ∈ (buildEntryOrUnreadable d.path f).numbers, read x = some x) :
    e = buildEntryOrUnreadable d.path f ↔ e.path = joinPath d.path f.name := by
  obtain ⟨dir, -, hread⟩ := hstored.reused hversions hf he
  rw [buildEntry_numbers d.path dir f] at hkept
  obtain rfl := Reread.eq_of_kept hread hkept
  rw [buildEntry_path d.path dir f]
  constructor
  · intro heq
    rw [heq]
  · intro hpath
    rw [← hpath]

end Histories

/-- A history that starts without an index. -/
theorem stored_history {codec : Codec} {read : Binary64 → Option Binary64}
    (hcodec : codec.Faithful read) {start : Directory} (hstart : start.index = none)
    (actions : List Action) :
    Stored codec read (placesOf start actions) (versionsOf start actions)
      (history codec start actions) := by
  have hstored : Stored codec read (placesOf start actions) (versionsOf start actions) start := by
    refine ⟨List.mem_cons_self, fun f hf => List.mem_append_left _ hf, fun text htext => ?_⟩
    rw [hstart] at htext
    cases htext
  apply hstored.history hcodec
  · exact fun a ha path hpath => List.mem_cons_of_mem _ (List.mem_flatMap.mpr ⟨a, ha, hpath⟩)
  · exact fun a ha f hf => List.mem_append_right _ (List.mem_flatMap.mpr ⟨a, ha, hf⟩)

/-- The numbers in the reused entries are read as they were written. -/
def Kept (codec : Codec) (read : Binary64 → Option Binary64) (d : Directory) : Prop :=
  ∀ f ∈ d.sessionFiles, (reusable (cacheOf codec d) f).isSome →
    ∀ x ∈ (buildEntryOrUnreadable d.path f).numbers, read x = some x

/-- A directory that is never moved is listed as without an index, if the numbers are read as they
were written. -/
theorem listing_of_unmoved {codec : Codec} {read : Binary64 → Option Binary64}
    (hcodec : codec.Faithful read) {start : Directory} (hstart : start.index = none)
    {actions : List Action} (hversions : Distinguished (versionsOf start actions))
    (hunmoved : ∀ a ∈ actions, a.place = [])
    (hkept : Kept codec read (history codec start actions)) :
    listSessions codec (history codec start actions) =
      listSessions codec (history codec start actions).forget := by
  have hstored := stored_history hcodec hstart actions
  have hplaces : placesOf start actions = [start.path] := by
    rw [placesOf, List.flatMap_eq_nil_iff.mpr hunmoved]
  rw [listSessions_eq_forget_iff]
  intro f hf e he
  rw [hstored.reused_iff hversions hf he (hkept f hf (Option.isSome_of_eq_some he))]
  obtain ⟨dir, hdir, hread⟩ := hstored.reused hversions hf he
  have hplace := hstored.place
  rw [hplaces, List.mem_singleton] at hdir hplace
  rw [(Reread.frame hread).2.1, hdir, hplace]
  unfold buildEntryOrUnreadable
  split <;> rfl

/-- After any history whose reused entries have numbers that are read as they were written, the
listing is the one without an index exactly if these entries have the present paths of their
files. With a number that never comes back it is not. -/
theorem listing_fresh_iff (codec : Codec) (read : Binary64 → Option Binary64)
    (hcodec : codec.Faithful read) (start : Directory) (hstart : start.index = none)
    (actions : List Action) (hversions : Distinguished (versionsOf start actions)) :
    (Kept codec read (history codec start actions) →
      (listSessions codec (history codec start actions) =
          listSessions codec (history codec start actions).forget ↔
        ∀ f ∈ (history codec start actions).sessionFiles,
          ∀ e ∈ reusable (cacheOf codec (history codec start actions)) f,
            e.path = joinPath (history codec start actions).path f.name)) ∧
    (listSessions codec (history codec start actions) =
        listSessions codec (history codec start actions).forget →
      ∀ f ∈ (history codec start actions).sessionFiles,
        (reusable (cacheOf codec (history codec start actions)) f).isSome →
          ∀ x ∈ (buildEntryOrUnreadable (history codec start actions).path f).numbers,
            Returns read x) := by
  have hstored := stored_history hcodec hstart actions
  rw [listSessions_eq_forget_iff]
  constructor
  · intro hkept
    apply forall₂_congr
    intro f hf
    apply forall₂_congr
    intro e he
    exact hstored.reused_iff hversions hf he (hkept f hf (Option.isSome_of_eq_some he))
  · intro hfresh f hf hreuse
    obtain ⟨e, he⟩ := Option.isSome_iff_exists.mp hreuse
    obtain rfl := hfresh f hf e he
    exact hstored.reused_returns hversions hf he

/-! ## A directory that is moved with its index -/

def headerFile : File where
  name := "s.jsonl"
  bytes := Utf8.bytes
    "\x7b\"type\":\"session_header\",\"wall_ms\":1000,\"interval_ms\":1000\x7d\n"
  mtimeS := some 1700000000

def oldDirectory : Directory := ⟨"C:\\old", [headerFile], none⟩

/-- What the first listing stores. -/
def oldIndex : SessionIndex := ⟨indexSchema, "C:\\old", [buildEntryOrUnreadable "C:\\old" headerFile]⟩

def oldIndexText : String :=
  "\x7b\"schema\":2,\"dir\":\"C:\\\\old\",\"entries\":[\x7b\"file\":\"s.jsonl\"," ++
  "\"path\":\"C:\\\\old\\\\s.jsonl\",\"label\":\"s.jsonl\",\"note\":\"\",\"startWallMs\":1000," ++
  "\"endWallMs\":1700000000000,\"durationS\":1699999999.0,\"status\":\"incomplete\"," ++
  "\"recovered\":false,\"mode\":\"incomplete\",\"samples\":0,\"intervalMs\":1000," ++
  "\"dischargeMedianW\":null,\"dischargeWh\":null,\"chargeWh\":null,\"cpuMedianPct\":null," ++
  "\"coveragePct\":null,\"discontinuities\":null,\"markers\":0,\"collectors\":[]," ++
  "\"stats\":\x7b\"totalSamples\":0,\"ticks\":0,\"collectorSamples\":[]," ++
  "\"firstSampleWallMs\":null,\"lastSampleWallMs\":null,\"observedHz\":null,\"events\":0," ++
  "\"markers\":0,\"timeouts\":0,\"recoveries\":0,\"errors\":0,\"discontinuities\":null," ++
  "\"durationS\":null\x7d,\"bytes\":59,\"mtimeS\":1700000000\x7d]\x7d"

/-- Knows the one index and its text. -/
def oldCodec : Codec where
  print index := if index = oldIndex then some oldIndexText else none
  parse text := if text = oldIndexText then some oldIndex else none

theorem oldCodec_print : oldCodec.print oldIndex = some oldIndexText := by
  simp only [oldCodec, if_true]

theorem oldCodec_parse : oldCodec.parse oldIndexText = some oldIndex := by
  simp only [oldCodec, if_true]

/-- A finite number is read as it was written, another one is null. -/
def readFinite (x : Binary64) : Option Binary64 := if x.isFinite then some x else none

theorem readFinite_old : ∀ x ∈ (buildEntryOrUnreadable "C:\\old" headerFile).numbers,
    readFinite x = some x := by
  have hfinite : (buildEntryOrUnreadable "C:\\old" headerFile).numbers.all Binary64.isFinite := by
    decide +kernel
  intro x hx
  exact if_pos (List.all_eq_true.mp hfinite x hx)

theorem oldCodec_faithful : oldCodec.Faithful readFinite := by
  intro index text index' hprint hparse
  obtain ⟨rfl, htext⟩ := Option.ite_none_right_eq_some.mp hprint
  obtain ⟨-, hindex⟩ := Option.ite_none_right_eq_some.mp hparse
  obtain rfl := Option.some.inj hindex
  exact .cons (SessionListEntry.reread_eq_self readFinite_old) .nil

def moved : List Action := [.list true, .move "D:\\new"]

theorem unchanged_distinguished {actions : List Action} (h : ∀ a ∈ actions, a.files = []) :
    Distinguished (versionsOf oldDirectory actions) := by
  have hversions : versionsOf oldDirectory actions = [headerFile] := by
    rw [versionsOf, List.flatMap_eq_nil_iff.mpr h]
    rfl
  intro f hf g hg _ _
  rw [hversions, List.mem_singleton] at hf hg
  rw [hf, hg]

theorem headerFile_only (path : String) (index : Option String) :
    (Directory.mk path [headerFile] index).sessionFiles = [headerFile] := by
  have hext : (extension headerFile.name = some "jsonl".toList) := by decide +kernel
  simp [Directory.sessionFiles, hext]

theorem listSessions_old : listSessions oldCodec oldDirectory =
    [buildEntryOrUnreadable "C:\\old" headerFile] := by
  rw [listSessions, oldDirectory, headerFile_only]
  rfl

theorem history_listed : history oldCodec oldDirectory [.list true] =
    ⟨"C:\\old", [headerFile], some oldIndexText⟩ := by
  have hchanged : changed oldCodec oldDirectory = true := by
    rw [changed, oldDirectory, headerFile_only]
    rfl
  have hindex : { cacheOf oldCodec oldDirectory with
      entries := listSessions oldCodec oldDirectory } = oldIndex := by
    rw [listSessions_old]
    rfl
  change listed oldCodec oldDirectory true = _
  rw [listed, if_pos ⟨hchanged, rfl⟩, hindex, oldCodec_print]
  rfl

theorem history_moved : history oldCodec oldDirectory moved =
    ⟨"D:\\new", [headerFile], some oldIndexText⟩ := by
  change { history oldCodec oldDirectory [.list true] with path := "D:\\new" } = _
  rw [history_listed]

theorem cacheOf_old (path : String) :
    cacheOf oldCodec ⟨path, [headerFile], some oldIndexText⟩ = oldIndex := by
  rw [cacheOf, SessionIndex.load, Option.bind_some, oldCodec_parse]
  rfl

theorem reusable_old : (reusable oldIndex headerFile).map SessionListEntry.path =
    some "C:\\old\\s.jsonl" := by
  decide +kernel

theorem kept_old (path : String) :
    Kept oldCodec readFinite ⟨path, [headerFile], some oldIndexText⟩ := by
  intro f hf _ x hx
  rw [headerFile_only, List.mem_singleton] at hf
  rw [hf, buildEntry_numbers path "C:\\old"] at hx
  exact readFinite_old x hx

/-- The former path is listed. -/
theorem paths_moved : (listSessions oldCodec ⟨"D:\\new", [headerFile], some oldIndexText⟩).map
    SessionListEntry.path = ["C:\\old\\s.jsonl"] := by
  obtain ⟨e, he, hpath⟩ := Option.map_eq_some_iff.mp reusable_old
  rw [listSessions, headerFile_only, cacheOf_old, List.map_singleton, he, List.map_singleton,
    Option.getD_some, hpath]

/-- The stored entry is listed as it would be built, until the directory is moved. -/
theorem listing_fresh_iff_moved :
    listSessions oldCodec (history oldCodec oldDirectory [.list true]) =
        listSessions oldCodec (history oldCodec oldDirectory [.list true]).forget ∧
      listSessions oldCodec (history oldCodec oldDirectory moved) ≠
        listSessions oldCodec (history oldCodec oldDirectory moved).forget := by
  have hlisted := (listing_fresh_iff oldCodec readFinite oldCodec_faithful oldDirectory rfl
    [.list true] (unchanged_distinguished (by simp [Action.files]))).1
  have hmoved := (listing_fresh_iff oldCodec readFinite oldCodec_faithful oldDirectory rfl
    moved (unchanged_distinguished (by simp [moved, Action.files]))).1
  rw [history_listed] at hlisted ⊢
  rw [history_moved] at hmoved ⊢
  obtain ⟨e, he, hpath⟩ := Option.map_eq_some_iff.mp reusable_old
  simp only [headerFile_only, cacheOf_old, he, List.mem_singleton, Option.mem_def,
    Option.some.injEq, forall_eq, forall_eq', hpath] at hlisted hmoved
  refine ⟨(hlisted (kept_old _)).mpr (by decide), fun hsame => ?_⟩
  exact absurd ((hmoved (kept_old _)).mp hsame) (by decide)

theorem moved_listing_stale : ¬ ∀ (codec : Codec) (read : Binary64 → Option Binary64)
    (start : Directory) (actions : List Action), codec.Faithful read → start.index = none →
    Distinguished (versionsOf start actions) →
    listSessions codec (history codec start actions) =
      listSessions codec (history codec start actions).forget := by
  intro hall
  have hsame := hall oldCodec readFinite oldDirectory moved oldCodec_faithful rfl
    (unchanged_distinguished (by simp [moved, Action.files]))
  have hpaths := congrArg (List.map SessionListEntry.path) hsame
  rw [history_moved, paths_moved] at hpaths
  have hfresh : (listSessions oldCodec
      (Directory.mk "D:\\new" [headerFile] (some oldIndexText)).forget).map SessionListEntry.path =
        ["D:\\new\\s.jsonl"] := by
    rw [listSessions, Directory.forget, headerFile_only]
    decide +kernel
  rw [hfresh] at hpaths
  exact absurd hpaths (by decide)

end PowerForensics.Index
