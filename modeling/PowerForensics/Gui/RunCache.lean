import PowerForensics.Core.RunReduction
import PowerForensics.Gui.Windows
import PowerForensics.System.Runs

/-! # The cache of reduced runs

Reducing a run reads a region of its session file. What comes out is kept under a text made of the
path, the bounds and the metric, with the size and the time of the file. An open bound has the text
of a bound of zero, paths may have one text, and a path may contain the character between the
parts. The checkpoints of a file are kept as well, with its size alone.
-/

namespace PowerForensics.RunCache

open Json Session Sessions Experiment ExperimentStore Compare Runs

/-! ## Files -/

/-- A session file with the time it was modified; of some files that cannot be read. -/
structure DiskFile where
  session : SessionFile
  mtimeS : UInt64
  readable : Bool

def fingerprint (file : DiskFile) : Nat × UInt64 :=
  if file.readable then (file.session.bytes.length, file.mtimeS) else (0, 0)

/-- The files, and the paths that requests are resolved to. -/
structure World (Path : Type) where
  resolve : String → Except BridgeError Path
  file : Path → DiskFile

/-! ## Reducing a file -/

def sessionIntervalMs (bs : List UInt8) : Except BridgeError UInt64 :=
  (readHeadTail bs).map fun parts =>
    asU64 (max (((headerJson parts.head).bind (·.numAt "interval_ms")).getD 0.0) 0.0)

def groupOf (s : String) : RunGroup := if s = "baseline" then .baseline else .treatment

def boundOf (ms : Option Nat) : Option UInt64 := ms.map UInt64.ofNat

def runMeta (run : RunRecord) : RunMeta :=
  ⟨run.id, run.label, groupOf run.group, run.order, run.pairId, run.included⟩

/-- A run without a label goes by its id. -/
def stampMeta (run : RunRecord) : RunMeta :=
  { runMeta run with label := if run.label = "" then run.id else run.label }

/-- The bounds that a region is read with. -/
def regionBounds (run : RunRecord) : UInt64 × UInt64 :=
  ((boundOf run.fromMs).getD 0, (boundOf run.toMs).getD 0)

/-- A run reduced from the region that has been read for it. -/
def reduceRegion (file : SessionFile) (region : Except Failure SessionData) (run : RunRecord)
    (config : ExperimentConfig) : Except Failure ReducedRun :=
  match region with
  | .error e => .error e
  | .ok region =>
      match sessionIntervalMs file.bytes with
      | .error e => .error (.error e)
      | .ok intervalMs =>
          .ok (reduceRun (runMeta run)
            ⟨region, intervalMs, boundOf run.fromMs, boundOf run.toMs⟩ config)

/-- The region of a file of which no checkpoints are kept. -/
def freshRegion (file : SessionFile) (fromMs toMs : UInt64) : Except Failure SessionData :=
  (loadRegionData ([] : List (String × WindowIndex)) file.path file.path file fromMs toMs).1

def reduceFile (file : SessionFile) (run : RunRecord) (config : ExperimentConfig) :
    Except Failure ReducedRun :=
  reduceRegion file (freshRegion file (regionBounds run).1 (regionBounds run).2) run config

def cannotOpen (file : SessionFile) : Failure :=
  .error ⟨"io-error", s!"cannot open {file.path}", none⟩

/-- What a run is reduced to without a cache, stamped like what is taken from one. -/
def uncached {Path : Type} (w : World Path) (run : RunRecord) (config : ExperimentConfig) :
    Except Failure ReducedRun :=
  match w.resolve run.sessionPath with
  | .error e => .error (.error e)
  | .ok path =>
      let file := w.file path
      if file.readable then
        (reduceFile file.session run config).map (·.withMeta (stampMeta run))
      else .error (cannotOpen file.session)

/-! ## The cache -/

def maxCacheEntries : Nat := 2048

/-- What a call asks for, other than how the run is labelled. -/
structure Request (Path : Type) where
  path : Path
  fromMs : Option UInt64
  toMs : Option UInt64
  metric : String

structure CachedRun where
  fingerprint : Nat × UInt64
  outcome : ReducedRun

def cacheKey (path : String) (fromMs toMs : Option UInt64) (metric : String) : String :=
  s!"{path}|{fromMs.getD 0}|{toMs.getD 0}|{metric}"

/-- Both caches, and the answers so far with those that a reduction without cache gives. -/
structure State (Path : Type) where
  world : World Path
  runs : List (String × CachedRun)
  windows : List (Path × WindowIndex)
  answers : List (Except Failure ReducedRun × Except Failure ReducedRun)

def start {Path : Type} (w : World Path) : State Path := ⟨w, [], [], []⟩

/-- The files may change; of a full cache of checkpoints some entry is dropped. -/
inductive Action (Path : Type) where
  | change (w : World Path)
  | reduce (run : RunRecord) (config : ExperimentConfig) (evicted : Path)

section Cache

variable {Path : Type} [DecidableEq Path] (lossy : Path → String)

def requestOf (path : Path) (run : RunRecord) (config : ExperimentConfig) : Request Path :=
  ⟨path, boundOf run.fromMs, boundOf run.toMs, config.primaryMetric⟩

def Request.key (request : Request Path) : String :=
  cacheKey (lossy request.path) request.fromMs request.toMs request.metric

/-- The entry under a key, if the file still has its fingerprint. -/
def cachedRun (runs : List (String × CachedRun)) (key : String) (fp : Nat × UInt64) :
    Option (CachedRun) :=
  ((runs.find? fun e => e.1 = key).map Prod.snd).filter fun entry => entry.fingerprint = fp

def insertRun (runs : List (String × CachedRun)) (key : String) (entry : CachedRun) :
    List (String × CachedRun) :=
  (key, entry) :: if maxCacheEntries ≤ runs.length then [] else runs.filter fun e => e.1 ≠ key

/-- A run of a file whose outcome is not kept. -/
def reduceFresh (s : State Path) (path : Path) (run : RunRecord) (config : ExperimentConfig)
    (evicted : Path) : Except Failure ReducedRun × State Path :=
  let file := s.world.file path
  if file.readable then
    let bounds := regionBounds run
    let (region, windows) := loadRegionData s.windows path evicted file.session bounds.1 bounds.2
    match reduceRegion file.session region run config with
    | .error e => (.error e, { s with windows })
    | .ok outcome =>
        let key := (requestOf path run config).key lossy
        (.ok outcome, { s with windows, runs := insertRun s.runs key ⟨fingerprint file, outcome⟩ })
  else (.error (cannotOpen file.session), s)

def reduceCached (s : State Path) (run : RunRecord) (config : ExperimentConfig) (evicted : Path) :
    Except Failure ReducedRun × State Path :=
  match s.world.resolve run.sessionPath with
  | .error e => (.error (.error e), s)
  | .ok path =>
      let key := (requestOf path run config).key lossy
      match cachedRun s.runs key (fingerprint (s.world.file path)) with
      | some entry => (.ok (entry.outcome.withMeta (stampMeta run)), s)
      | none => reduceFresh lossy s path run config evicted

def step (s : State Path) : Action Path → Option (State Path)
  | .change w => some { s with world := w }
  | .reduce run config evicted =>
      let (answer, t) := reduceCached lossy s run config evicted
      some { t with answers := s.answers ++ [(answer, uncached s.world run config)] }

/-! ## What is asked -/

/-- A readable file is known by its path and its fingerprint. -/
def Conforms (contents : Path → Nat × UInt64 → SessionFile) (w : World Path) : Prop :=
  ∀ path, (w.file path).readable →
    (w.file path).session = contents path (fingerprint (w.file path))

/-- Every answer is the one of a reduction without cache. -/
def Transparent (s : State Path) : Prop := ∀ a ∈ s.answers, a.1 = a.2

/-- Two requests are for one thing if they agree in the text of the path, in the metric, and in the
bounds where an open bound counts as zero. -/
def Unmistakable (r r' : Request Path) : Prop :=
  lossy r.path = lossy r'.path → r.metric = r'.metric → r.fromMs.getD 0 = r'.fromMs.getD 0 →
    r.toMs.getD 0 = r'.toMs.getD 0 → r = r'

/-- The requests of a run are told apart: the character between the parts of a key is in no path or
in no metric, and of two paths with one text, or an open bound and a bound of zero, not both are
asked for. -/
structure Apart (asked : Set (Request Path)) : Prop where
  separable : (∀ r ∈ asked, '|' ∉ (lossy r.path).toList) ∨ ∀ r ∈ asked, '|' ∉ r.metric.toList
  unmistakable : ∀ r ∈ asked, ∀ r' ∈ asked, Unmistakable lossy r r'

/-- A call for one of the requests. Where an entry is found the file can be read; where none is
found the run has a label, and the checkpoints that are kept for the file are its own. -/
structure Plain (asked : Set (Request Path)) (s : State Path) (path : Path) (run : RunRecord)
    (config : ExperimentConfig) : Prop where
  asked : requestOf path run config ∈ asked
  readable : (cachedRun s.runs ((requestOf path run config).key lossy)
    (fingerprint (s.world.file path))).isSome → (s.world.file path).readable
  labelled : cachedRun s.runs ((requestOf path run config).key lossy)
    (fingerprint (s.world.file path)) = none → run.label ≠ ""
  indexed : (regionBounds run).1 ≠ 0 →
    ∀ idx ∈ keptIndex s.windows path (s.world.file path).session.bytes,
      idx = buildWindowIndex (s.world.file path).session.bytes

def Harmless (contents : Path → Nat × UInt64 → SessionFile) (asked : Set (Request Path))
    (s : State Path) : Action Path → Prop
  | .change w => Conforms contents w
  | .reduce run config _ => ∀ path, s.world.resolve run.sessionPath = .ok path →
      Plain lossy asked s path run config

end Cache

/-! ## Reductions of one region -/

/-- A region depends on the checkpoints by where it starts. -/
theorem loadRegion_congr {idx idx' : WindowIndex} {fromMs : UInt64}
    (hstart : regionStart idx fromMs = regionStart idx' fromMs) (file : SessionFile)
    (toMs : UInt64) : loadRegion idx file fromMs toMs = loadRegion idx' file fromMs toMs := by
  simp only [loadRegion, regionText, headerLines, regionRead, hstart]

/-- Without a lower bound the region begins with the file. -/
theorem regionStart_zero (idx : WindowIndex) : regionStart idx 0 = 0 :=
  startOffsetFor_eq idx.checkpoints 0

/-- Two caches that lead to one region, each with its own paths. -/
theorem loadRegionData_congr {Path Path' : Type} [DecidableEq Path] [DecidableEq Path']
    {windows : List (Path × WindowIndex)} {windows' : List (Path' × WindowIndex)}
    {path evicted : Path} {path' evicted' : Path'} {file : SessionFile} {fromMs toMs : UInt64}
    (hregion : loadRegion (getWindowIndex windows path evicted file.bytes).1 file fromMs toMs =
      loadRegion (getWindowIndex windows' path' evicted' file.bytes).1 file fromMs toMs) :
    (loadRegionData windows path evicted file fromMs toMs).1 =
      (loadRegionData windows' path' evicted' file fromMs toMs).1 := by
  cases hhead : readHeadTail file.bytes with
  | error e => simp only [loadRegionData, hhead]
  | ok head => simpa only [loadRegionData, hhead] using hregion

/-- A region is that of a file of which no checkpoints are kept, if those that are kept are its own
or the region begins with the file. -/
theorem loadRegionData_fresh {Path : Type} [DecidableEq Path]
    {windows : List (Path × WindowIndex)} {path : Path} {file : SessionFile} {fromMs : UInt64}
    (hindexed : fromMs ≠ 0 → ∀ idx ∈ keptIndex windows path file.bytes,
      idx = buildWindowIndex file.bytes) (evicted : Path) (toMs : UInt64) :
    (loadRegionData windows path evicted file fromMs toMs).1 = freshRegion file fromMs toMs := by
  refine loadRegionData_congr ?_
  refine loadRegion_congr ?_ file toMs
  by_cases hzero : fromMs = 0
  · rw [hzero, regionStart_zero, regionStart_zero]
  · have hfresh : keptIndex ([] : List (String × WindowIndex)) file.path file.bytes = none := rfl
    simp only [getWindowIndex, hfresh]
    cases hkept : keptIndex windows path file.bytes with
    | none => rfl
    | some idx => exact congrArg (regionStart · fromMs) (hindexed hzero idx hkept)

/-- Runs of one range and one metric are reduced to one outcome, but for what goes along. -/
theorem reduceFile_withMeta (file : SessionFile) {run run' : RunRecord}
    {config config' : ExperimentConfig} (hfrom : boundOf run.fromMs = boundOf run'.fromMs)
    (hto : boundOf run.toMs = boundOf run'.toMs)
    (hmetric : config.primaryMetric = config'.primaryMetric) (m : RunMeta) :
    (reduceFile file run config).map (·.withMeta m) =
      (reduceFile file run' config').map (·.withMeta m) := by
  simp only [reduceFile, regionBounds, reduceRegion, hfrom, hto]
  cases freshRegion file ((boundOf run'.fromMs).getD 0) ((boundOf run'.toMs).getD 0) with
  | error e => rfl
  | ok region =>
      cases sessionIntervalMs file.bytes with
      | error e => rfl
      | ok intervalMs =>
          simp only [Except.map, reduceRun_withMeta (runMeta run) m _ hmetric,
            reduceRun_withMeta (runMeta run') m _ rfl]

/-- A run with a label is stamped with what it is reduced with. -/
theorem reduceFile_stamped (file : SessionFile) {run : RunRecord} (config : ExperimentConfig)
    (hlabel : run.label ≠ "") :
    (reduceFile file run config).map (·.withMeta (stampMeta run)) = reduceFile file run config := by
  have hstamp : stampMeta run = runMeta run := by
    rw [stampMeta, if_neg hlabel]
    rfl
  unfold reduceFile reduceRegion
  rw [hstamp]
  split
  · rfl
  · split
    · rfl
    · exact congrArg Except.ok (reduceRun_withMeta (runMeta run) (runMeta run) _ rfl)

/-! ## Keys -/

section Keys

variable {c : Char}

/-- A text is split where a character stands that is not before it. -/
theorem split_inj {p p' r r' : List Char} (hp : c ∉ p) (hp' : c ∉ p')
    (heq : p ++ c :: r = p' ++ c :: r') : p = p' ∧ r = r' := by
  induction p generalizing p' with
  | nil =>
      cases p' with
      | nil => exact ⟨rfl, (List.cons.inj heq).2⟩
      | cons d p' => exact absurd ((List.cons.inj heq).1 ▸ List.mem_cons_self) hp'
  | cons d p ih =>
      cases p' with
      | nil => exact absurd ((List.cons.inj heq).1 ▸ List.mem_cons_self) hp
      | cons d' p' =>
          obtain ⟨rfl, hrest⟩ := List.cons.inj heq
          obtain ⟨rfl, rfl⟩ := ih (fun h => hp (List.mem_cons_of_mem _ h))
            (fun h => hp' (List.mem_cons_of_mem _ h)) hrest
          exact ⟨rfl, rfl⟩

/-- A text is split where a character stands that is not behind it. -/
theorem split_inj_right {p p' r r' : List Char} (hr : c ∉ r) (hr' : c ∉ r')
    (heq : p ++ c :: r = p' ++ c :: r') : p = p' ∧ r = r' := by
  have hreverse : r.reverse ++ c :: p.reverse = r'.reverse ++ c :: p'.reverse := by
    simpa using congrArg List.reverse heq
  obtain ⟨hr, hp⟩ := split_inj (by simpa using hr) (by simpa using hr') hreverse
  exact ⟨List.reverse_injective hp, List.reverse_injective hr⟩

/-- The four parts of a text are found from its begin or from its end. -/
theorem parts_inj {p p' a a' b b' m m' : List Char} (ha : c ∉ a) (ha' : c ∉ a') (hb : c ∉ b)
    (hb' : c ∉ b') (hends : c ∉ p ∧ c ∉ p' ∨ c ∉ m ∧ c ∉ m')
    (heq : p ++ c :: (a ++ c :: (b ++ c :: m)) = p' ++ c :: (a' ++ c :: (b' ++ c :: m'))) :
    p = p' ∧ a = a' ∧ b = b' ∧ m = m' := by
  obtain ⟨hp, hp'⟩ | ⟨hm, hm'⟩ := hends
  · obtain ⟨rfl, hrest⟩ := split_inj hp hp' heq
    obtain ⟨rfl, hlast⟩ := split_inj ha ha' hrest
    obtain ⟨rfl, rfl⟩ := split_inj hb hb' hlast
    exact ⟨rfl, rfl, rfl, rfl⟩
  · have hassoc : ∀ p a b m : List Char,
        p ++ c :: (a ++ c :: (b ++ c :: m)) = ((p ++ c :: a) ++ c :: b) ++ c :: m := by simp
    rw [hassoc, hassoc] at heq
    obtain ⟨hrest, rfl⟩ := split_inj_right hm hm' heq
    obtain ⟨hfirst, rfl⟩ := split_inj_right hb hb' hrest
    obtain ⟨rfl, rfl⟩ := split_inj_right ha ha' hfirst
    exact ⟨rfl, rfl, rfl, rfl⟩

theorem toList_cacheKey (path : String) (fromMs toMs : Option UInt64) (metric : String) :
    (cacheKey path fromMs toMs metric).toList =
      path.toList ++ '|' :: (Nat.toDigits 10 (fromMs.getD 0).toNat ++
        '|' :: (Nat.toDigits 10 (toMs.getD 0).toNat ++ '|' :: metric.toList)) := by
  unfold cacheKey
  simp only [toString, String.toList_append, Nat.toList_repr]
  simp

variable {Path : Type} {lossy : Path → String} {asked : Set (Request Path)}

/-- Requests that are told apart have keys of their own. -/
theorem Apart.key_inj (h : Apart lossy asked) {r r' : Request Path} (hr : r ∈ asked)
    (hr' : r' ∈ asked) (hkey : r.key lossy = r'.key lossy) : r = r' := by
  have hdigits : ∀ n, '|' ∉ Nat.toDigits 10 n := fun n hmem =>
    absurd (Nat.isDigit_of_mem_toDigits (by decide) (by decide) hmem) (by decide)
  have hnumber : ∀ {m n : UInt64}, Nat.toDigits 10 m.toNat = Nat.toDigits 10 n.toNat → m = n :=
    fun {m n} hsame => UInt64.toNat_inj.mp <| by
      rw [← Binary64.digitsValue_toDigits m.toNat, hsame, Binary64.digitsValue_toDigits]
  have hends : '|' ∉ (lossy r.path).toList ∧ '|' ∉ (lossy r'.path).toList ∨
      '|' ∉ r.metric.toList ∧ '|' ∉ r'.metric.toList :=
    h.separable.imp (fun hpaths => ⟨hpaths r hr, hpaths r' hr'⟩)
      fun hmetrics => ⟨hmetrics r hr, hmetrics r' hr'⟩
  have htext := congrArg String.toList hkey
  rw [Request.key, Request.key, toList_cacheKey, toList_cacheKey] at htext
  obtain ⟨hpath, hfrom, hto, hmetric⟩ :=
    parts_inj (hdigits _) (hdigits _) (hdigits _) (hdigits _) hends htext
  exact h.unmistakable r hr r' hr' (String.ext_iff.mpr hpath) (String.ext_iff.mpr hmetric)
    (hnumber hfrom) (hnumber hto)

end Keys

/-! ## Entries -/

section Entries

variable {runs : List (String × CachedRun)} {key : String} {entry : CachedRun}

theorem of_cachedRun {fp : Nat × UInt64} (h : cachedRun runs key fp = some entry) :
    (key, entry) ∈ runs ∧ entry.fingerprint = fp := by
  obtain ⟨hfound, hfp⟩ := Option.filter_eq_some_iff.mp h
  obtain ⟨e, hfind, rfl⟩ := Option.map_eq_some_iff.mp hfound
  have hkey : e.1 = key := by simpa using List.find?_some hfind
  exact ⟨hkey ▸ List.mem_of_find?_eq_some hfind, of_decide_eq_true hfp⟩

theorem mem_insertRun {e : String × CachedRun} (he : e ∈ insertRun runs key entry) :
    e = (key, entry) ∨ e ∈ runs := by
  obtain rfl | he := List.mem_cons.mp he
  · exact Or.inl rfl
  · split at he
    · cases he
    · exact Or.inr (List.mem_of_mem_filter he)

end Entries

/-! ## The invariant -/

section Invariant

variable {Path : Type} {lossy : Path → String} {contents : Path → Nat × UInt64 → SessionFile}
  {asked : Set (Request Path)} {s t : State Path}

/-- An entry is what a run of one of the requests is reduced to, under the key of the request. -/
def Made (lossy : Path → String) (contents : Path → Nat × UInt64 → SessionFile)
    (asked : Set (Request Path)) (key : String) (entry : CachedRun) : Prop :=
  ∃ r ∈ asked, r.key lossy = key ∧ ∃ run config, requestOf r.path run config = r ∧
    reduceFile (contents r.path entry.fingerprint) run config = .ok entry.outcome

structure Sound (lossy : Path → String) (contents : Path → Nat × UInt64 → SessionFile)
    (asked : Set (Request Path)) (s : State Path) : Prop where
  conforms : Conforms contents s.world
  made : ∀ e ∈ s.runs, Made lossy contents asked e.1 e.2
  transparent : Transparent s

theorem sound_start {w : World Path} (hconforms : Conforms contents w) :
    Sound lossy contents asked (start w) where
  conforms := hconforms
  made _ he := by cases he
  transparent _ ha := by cases ha

variable [DecidableEq Path]

/-- An outcome that is kept under the key of a request is the one that the run is reduced to. -/
theorem Sound.hit (h : Sound lossy contents asked s) (hapart : Apart lossy asked) {path : Path}
    {run : RunRecord} {config : ExperimentConfig} {entry : CachedRun}
    (hplain : Plain lossy asked s path run config)
    (hresolve : s.world.resolve run.sessionPath = .ok path)
    (hentry : cachedRun s.runs ((requestOf path run config).key lossy)
      (fingerprint (s.world.file path)) = some entry) :
    uncached s.world run config = .ok (entry.outcome.withMeta (stampMeta run)) := by
  have hreadable := hplain.readable (Option.isSome_of_eq_some hentry)
  obtain ⟨hmem, hfp⟩ := of_cachedRun hentry
  obtain ⟨r, hr, hkey, run', config', hmade, hreduce⟩ := h.made _ hmem
  -- The entry was made for the same request, as no other one has its key.
  obtain rfl : r = requestOf path run config := hapart.key_inj hr hplain.asked hkey
  have hfile : (s.world.file path).session = contents path entry.fingerprint := by
    rw [h.conforms path hreadable, hfp]
  simp only [uncached, hresolve, hreadable, if_true, hfile]
  rw [reduceFile_withMeta _ (congrArg Request.fromMs hmade).symm
    (congrArg Request.toMs hmade).symm (congrArg Request.metric hmade).symm]
  rw [show (requestOf path run config).path = path from rfl] at hreduce
  rw [hreduce]
  rfl

/-- A file that can be read is reduced as without a cache, and an outcome is kept. -/
theorem reduceFresh_eq {path : Path} {run : RunRecord} {config : ExperimentConfig}
    (hindexed : (regionBounds run).1 ≠ 0 →
      ∀ idx ∈ keptIndex s.windows path (s.world.file path).session.bytes,
        idx = buildWindowIndex (s.world.file path).session.bytes) (evicted : Path)
    (hreadable : (s.world.file path).readable) :
    ∃ windows, reduceFresh lossy s path run config evicted =
      match reduceFile (s.world.file path).session run config with
      | .error e => (.error e, { s with windows })
      | .ok outcome => (.ok outcome, { s with
          windows
          runs := insertRun s.runs ((requestOf path run config).key lossy)
            ⟨fingerprint (s.world.file path), outcome⟩ }) := by
  refine ⟨(loadRegionData s.windows path evicted (s.world.file path).session (regionBounds run).1
    (regionBounds run).2).2, ?_⟩
  unfold reduceFresh
  simp only [hreadable, if_true]
  rw [loadRegionData_fresh hindexed]
  unfold reduceFile
  split
  · rfl
  · rfl

/-- An outcome that is not kept is computed, and kept if it can be. -/
theorem Sound.miss (h : Sound lossy contents asked s) {path : Path} {run : RunRecord}
    {config : ExperimentConfig} (evicted : Path) (hplain : Plain lossy asked s path run config)
    (hlabel : run.label ≠ "") (hresolve : s.world.resolve run.sessionPath = .ok path) :
    let result := reduceFresh lossy s path run config evicted
    result.1 = uncached s.world run config ∧ result.2.world = s.world ∧
      ∀ e ∈ result.2.runs, Made lossy contents asked e.1 e.2 := by
  intro result
  by_cases hreadable : (s.world.file path).readable
  · have huncached : uncached s.world run config =
        reduceFile (s.world.file path).session run config := by
      simp only [uncached, hresolve, hreadable, if_true, reduceFile_stamped _ config hlabel]
    obtain ⟨windows, hfresh⟩ :=
      @reduceFresh_eq _ lossy s _ _ _ config hplain.indexed evicted hreadable
    rw [huncached]
    unfold result
    rw [hfresh]
    cases hreduce : reduceFile (s.world.file path).session run config with
    | error e => exact ⟨rfl, rfl, h.made⟩
    | ok outcome =>
        refine ⟨rfl, rfl, fun e he => ?_⟩
        obtain rfl | he := mem_insertRun he
        · refine ⟨_, hplain.asked, rfl, run, config, rfl, ?_⟩
          rw [← hreduce, h.conforms path hreadable]
          rfl
        · exact h.made e he
  · unfold result reduceFresh
    simp only [uncached, hresolve, if_neg hreadable]
    exact ⟨trivial, trivial, h.made⟩

theorem step_sound (hapart : Apart lossy asked) {a : Action Path}
    (h : Sound lossy contents asked s) (hharmless : Harmless lossy contents asked s a)
    (hstep : step lossy s a = some t) : Sound lossy contents asked t := by
  cases a with
  | change w =>
      obtain rfl := Option.some.inj hstep
      exact ⟨hharmless, h.made, h.transparent⟩
  | reduce run config evicted =>
      obtain rfl := Option.some.inj hstep
      have hanswer : (reduceCached lossy s run config evicted).1 = uncached s.world run config ∧
          (reduceCached lossy s run config evicted).2.world = s.world ∧
          ∀ e ∈ (reduceCached lossy s run config evicted).2.runs,
            Made lossy contents asked e.1 e.2 := by
        unfold reduceCached
        cases hresolve : s.world.resolve run.sessionPath with
        | error e => exact ⟨by simp only [uncached, hresolve], rfl, h.made⟩
        | ok path =>
            have hplain := hharmless path hresolve
            dsimp only
            split
            · next entry hentry =>
              exact ⟨(h.hit hapart hplain hresolve hentry).symm, rfl, h.made⟩
            · next hnone => exact h.miss evicted hplain (hplain.labelled hnone) hresolve
      obtain ⟨hequal, hworld, hmade⟩ := hanswer
      refine ⟨?_, hmade, fun a ha => ?_⟩
      · exact hworld.symm ▸ h.conforms
      · obtain ha | ha := List.mem_append.mp ha
        · exact h.transparent a ha
        · obtain rfl := List.mem_singleton.mp ha
          exact hequal

end Invariant

/-! ## An open bound and a bound of zero -/

section Bounds

variable {Path : Type} {lossy : Path → String}

/-- The run from the time zero on. -/
def fromZero (run : RunRecord) : RunRecord := { run with fromMs := some 0 }

/-- Where the range of a reduced run begins. -/
def begins (answer : Except Failure ReducedRun) : Option UInt64 :=
  answer.toOption.map ReducedRun.fromMs

theorem Transparent.eq {s : State Path} {answer expected : Except Failure ReducedRun}
    (h : Transparent s) (hmem : (answer, expected) ∈ s.answers) : answer = expected := h _ hmem

theorem begins_map (m : RunMeta) (answer : Except Failure ReducedRun) :
    begins (answer.map (·.withMeta m)) = begins answer := by
  cases answer with
  | error e => rfl
  | ok outcome => rfl

theorem begins_uncached {w : World Path} {path : Path} {run : RunRecord}
    (config : ExperimentConfig) (hresolve : w.resolve run.sessionPath = .ok path)
    (hreadable : (w.file path).readable) :
    begins (uncached w run config) = begins (reduceFile (w.file path).session run config) := by
  simp only [uncached, hresolve, hreadable, if_true, begins_map]

/-- An answer that is right begins where the run is reduced to begin. -/
theorem begins_eq_of_answer {w : World Path} {path : Path} {run run' : RunRecord}
    {config : ExperimentConfig} {outcome : ReducedRun} {m : RunMeta}
    (hresolve : w.resolve run'.sessionPath = .ok path) (hreadable : (w.file path).readable)
    (hreduce : reduceFile (w.file path).session run config = .ok outcome)
    (hanswer : .ok (outcome.withMeta m) = uncached w run' config) :
    begins (reduceFile (w.file path).session run config) =
      begins (reduceFile (w.file path).session run' config) := by
  rw [← begins_uncached config hresolve hreadable, ← hanswer, hreduce]
  rfl

/-- What is kept after the first call of a run, which reads the file. -/
def afterFirst (lossy : Path → String) (w : World Path) (path : Path) (run : RunRecord)
    (config : ExperimentConfig) (outcome : ReducedRun) (windows : List (Path × WindowIndex)) :
    State Path where
  world := w
  runs := [((requestOf path run config).key lossy, ⟨fingerprint (w.file path), outcome⟩)]
  windows
  answers := [(.ok outcome, uncached w run config)]

/-- What is found under the key of the first call. -/
theorem cachedRun_afterFirst {w : World Path} {path : Path} {run run' : RunRecord}
    {config : ExperimentConfig} {outcome : ReducedRun} {windows : List (Path × WindowIndex)}
    (hkey : (requestOf path run' config).key lossy = (requestOf path run config).key lossy) :
    cachedRun (afterFirst lossy w path run config outcome windows).runs
      ((requestOf path run' config).key lossy) (fingerprint (w.file path)) =
        some ⟨fingerprint (w.file path), outcome⟩ := by
  simp only [afterFirst, hkey, cachedRun, List.find?_cons_of_pos, decide_true, Option.map_some,
    Option.filter_some, if_true]

theorem key_fromZero {path : Path} {run : RunRecord} (config : ExperimentConfig)
    (hopen : run.fromMs = none) : (requestOf path (fromZero run) config).key lossy =
      (requestOf path run config).key lossy := by
  simp only [Request.key, requestOf, cacheKey, boundOf, fromZero, hopen, Option.map_some,
    Option.map_none, Option.getD_some, Option.getD_none]
  rfl

variable [DecidableEq Path]

theorem step_start {w : World Path} {path : Path} {run : RunRecord} {config : ExperimentConfig}
    {outcome : ReducedRun} (evicted : Path) (hresolve : w.resolve run.sessionPath = .ok path)
    (hreadable : (w.file path).readable)
    (hreduce : reduceFile (w.file path).session run config = .ok outcome) :
    ∃ windows, step lossy (start w) (.reduce run config evicted) =
      some (afterFirst lossy w path run config outcome windows) := by
  have hindexed : (regionBounds run).1 ≠ 0 →
      ∀ idx ∈ keptIndex (start w).windows path ((start w).world.file path).session.bytes,
        idx = buildWindowIndex ((start w).world.file path).session.bytes :=
    fun _ _ hidx => absurd hidx (by simp [keptIndex, start])
  obtain ⟨windows, hfresh⟩ :=
    @reduceFresh_eq _ lossy (start w) _ _ _ config hindexed evicted hreadable
  refine ⟨windows, ?_⟩
  have hworld : (start w).world = w := rfl
  have hnone : cachedRun (start w).runs ((requestOf path run config).key lossy)
      (fingerprint (w.file path)) = none := rfl
  rw [hworld, hreduce] at hfresh
  simp only [step, reduceCached, hworld, hresolve, hnone, hfresh]
  rfl

/-- A second call with the key of the first one is given what the first one was. -/
theorem step_afterFirst {w : World Path} {path : Path} {run run' : RunRecord}
    {config : ExperimentConfig} {outcome : ReducedRun} {windows : List (Path × WindowIndex)}
    (evicted : Path) (hresolve : w.resolve run'.sessionPath = .ok path)
    (hkey : (requestOf path run' config).key lossy = (requestOf path run config).key lossy) :
    step lossy (afterFirst lossy w path run config outcome windows) (.reduce run' config evicted) =
      some { afterFirst lossy w path run config outcome windows with
        answers := [(.ok outcome, uncached w run config),
          (.ok (outcome.withMeta (stampMeta run')), uncached w run' config)] } := by
  have hworld : (afterFirst lossy w path run config outcome windows).world = w := rfl
  have hfound := @cachedRun_afterFirst _ lossy w path run run' config outcome windows hkey
  simp only [step, reduceCached, hworld, hresolve, hfound]
  rfl

theorem begins_reduceFile {file : SessionFile} {run : RunRecord} {config : ExperimentConfig}
    {region : SessionData} {intervalMs : UInt64}
    (hregion : freshRegion file (regionBounds run).1 (regionBounds run).2 = .ok region)
    (hinterval : sessionIntervalMs file.bytes = .ok intervalMs) :
    begins (reduceFile file run config) = some (ComparisonInput.resolvedRange
      ⟨region, intervalMs, boundOf run.fromMs, boundOf run.toMs⟩).1 := by
  simp only [reduceFile, hregion, reduceRegion, hinterval]
  rfl

/-- Without bounds a region is read as from zero on, but the range does not begin there. -/
theorem begins_fromZero {file : SessionFile} {run : RunRecord} {config : ExperimentConfig}
    {region : SessionData} {intervalMs : UInt64} (hfrom : run.fromMs = none)
    (hto : run.toMs = none) (hregion : freshRegion file 0 0 = .ok region)
    (hinterval : sessionIntervalMs file.bytes = .ok intervalMs) :
    begins (reduceFile file run config) =
        some (ComparisonInput.resolvedRange ⟨region, intervalMs, none, none⟩).1 ∧
      begins (reduceFile file (fromZero run) config) = some 0 := by
  have hbounds : regionBounds run = (0, 0) := by
    rw [regionBounds, hfrom, hto]
    rfl
  have hzero : regionBounds (fromZero run) = (0, 0) := by
    rw [regionBounds, fromZero, hto]
    rfl
  have hmin : ∀ hi : UInt64, min (UInt64.ofNat 0) hi = 0 := fun hi => if_pos UInt64.zero_le
  constructor
  · rw [begins_reduceFile (by rw [hbounds]; exact hregion) hinterval, hfrom, hto]
    rfl
  · rw [begins_reduceFile (by rw [hzero]; exact hregion) hinterval]
    exact congrArg some (hmin _)

end Bounds

/-! ## A recording with a header only -/

def headerOnly : SessionFile where
  path := "s.jsonl"
  name := "s.jsonl"
  bytes := Utf8.bytes
    "\x7b\"type\":\"session_header\",\"wall_ms\":1000,\"interval_ms\":1000\x7d\n"

/-- All paths are those of that file. -/
def oneFile : World String where
  resolve := .ok
  file _ := ⟨headerOnly, 1, true⟩

def wholeRun : RunRecord where
  id := "run-1"
  label := "before"
  group := "baseline"
  order := 0
  pairId := none
  sessionPath := "s.jsonl"
  fromMs := none
  toMs := none
  included := true
  source := "manual"
  notes := ""
  capturedMs := none

def powerConfig : ExperimentConfig := ⟨"battery_discharge_w", "Power", "W", .lower, .unpaired⟩

theorem headerOnly_reads : (freshRegion headerOnly 0 0).toOption.any fun region =>
    (sessionIntervalMs headerOnly.bytes).toOption.any fun intervalMs =>
      (ComparisonInput.resolvedRange ⟨region, intervalMs, none, none⟩).1 ≠ 0 := by
  have hfile : headerOnly = ⟨"s.jsonl", "s.jsonl", Utf8.encode _⟩ :=
    congrArg (fun cs => SessionFile.mk "s.jsonl" "s.jsonl" (Utf8.encode cs)) String.toList_ofList
  rw [hfile]
  simp only [freshRegion, loadRegionData, loadRegion, sessionIntervalMs, headerJson, loadSession,
    String.toList_ofList, toOption_parse]
  decide +kernel

theorem begins_headerOnly : ∃ lo, lo ≠ 0 ∧ begins (reduceFile headerOnly wholeRun powerConfig) =
    some lo ∧ begins (reduceFile headerOnly (fromZero wholeRun) powerConfig) = some 0 := by
  have hreads := headerOnly_reads
  cases hregion : freshRegion headerOnly 0 0 with
  | error e =>
      rw [hregion] at hreads
      cases hreads
  | ok region =>
      cases hinterval : sessionIntervalMs headerOnly.bytes with
      | error e =>
          rw [hregion, hinterval] at hreads
          cases hreads
      | ok intervalMs =>
          rw [hregion, hinterval] at hreads
          exact ⟨_, of_decide_eq_true hreads, begins_fromZero rfl rfl hregion hinterval⟩

theorem reduce_headerOnly : ∃ outcome, reduceFile headerOnly wholeRun powerConfig = .ok outcome := by
  obtain ⟨lo, -, hbegins, -⟩ := begins_headerOnly
  cases hreduce : reduceFile headerOnly wholeRun powerConfig with
  | error e =>
      rw [hreduce] at hbegins
      cases hbegins
  | ok outcome => exact ⟨outcome, rfl⟩

theorem conforms_oneFile : Conforms (fun _ _ => headerOnly) oneFile := by
  exact fun _ _ => rfl

/-- The same range of the same file, as another run that has no label. -/
def relabelled : RunRecord :=
  { wholeRun with id := "run-2", label := "", group := "treatment", order := 1 }

def wholeRequest : Request String := requestOf "s.jsonl" wholeRun powerConfig

theorem apart_wholeRequest : Apart id {wholeRequest} where
  separable := Or.inl fun r hr => by
    rw [Set.mem_singleton_iff.mp hr]
    decide
  unmistakable r hr r' hr' _ _ _ _ := by
    rw [Set.mem_singleton_iff.mp hr, Set.mem_singleton_iff.mp hr']

/-- If the requests of the calls are told apart by their paths, bounds and metrics, and every call
is a plain one, every call is answered as without a cache. -/
theorem cache_transparent {Path : Type} [DecidableEq Path] (lossy : Path → String)
    (contents : Path → Nat × UInt64 → SessionFile) (asked : Set (Request Path)) (w : World Path)
    (actions : List (Action Path)) (s : State Path) (hapart : Apart lossy asked)
    (hconforms : Conforms contents w) (hrun : run (step lossy) (start w) actions = some s)
    (hharmless : Meets (step lossy) (Harmless lossy contents asked) (start w) actions) :
    Transparent s := by
  have hsound : Sound lossy contents asked s :=
    invariant_of_meets
      (fun _ _ _ h hharmless hstep => step_sound hapart h hharmless hstep)
      (sound_start hconforms) hharmless hrun
  exact hsound.transparent

/-- The second call is answered from the cache, and stamped with its own run. -/
theorem cache_transparent_relabelled : ∃ (s : State String) (outcome : ReducedRun),
    s.answers.map Prod.fst = [.ok outcome, .ok (outcome.withMeta (stampMeta relabelled))] ∧
      Transparent s := by
  obtain ⟨outcome, hreduce⟩ := reduce_headerOnly
  obtain ⟨windows, hfirst⟩ :=
    @step_start String id _ oneFile "s.jsonl" wholeRun powerConfig outcome "" rfl rfl hreduce
  have hsecond := @step_afterFirst String id _ oneFile "s.jsonl" wholeRun relabelled powerConfig
    outcome windows "" rfl rfl
  have hfound := @cachedRun_afterFirst String id oneFile "s.jsonl" wholeRun relabelled powerConfig
    outcome windows rfl
  refine ⟨_, outcome, rfl, cache_transparent id (fun _ _ => headerOnly) {wholeRequest} oneFile
    [.reduce wholeRun powerConfig "", .reduce relabelled powerConfig ""] _ apart_wholeRequest
    conforms_oneFile (by rw [run_cons, hfirst, Option.bind_some, run_cons, hsecond]; rfl)
    ((meets_cons hfirst).mpr ⟨?_, (meets_cons hsecond).mpr ⟨?_, trivial⟩⟩)⟩
  · rintro path hresolve
    obtain rfl := Except.ok.inj hresolve
    exact ⟨Set.mem_singleton _, fun _ => rfl, fun _ => by decide, fun hzero => absurd rfl hzero⟩
  · rintro path hresolve
    obtain rfl := Except.ok.inj hresolve
    exact ⟨Set.mem_singleton _, fun _ => rfl,
      fun hnone => absurd (hfound.symm.trans hnone) (by simp), fun hzero => absurd rfl hzero⟩

/-- What an open range was reduced to is the answer for the range from zero on. -/
theorem bounds_confused : ¬∀ (lossy : String → String)
    (contents : String → Nat × UInt64 → SessionFile) (w : World String)
    (actions : List (Action String)) (s : State String), Conforms contents w →
    (∀ w', .change w' ∈ actions → Conforms contents w') →
    run (step lossy) (start w) actions = some s → Transparent s := by
  intro h
  obtain ⟨outcome, hreduce⟩ := reduce_headerOnly
  obtain ⟨lo, hlo, hbegins, hzero⟩ := begins_headerOnly
  obtain ⟨windows, hfirst⟩ :=
    @step_start String id _ oneFile "s.jsonl" wholeRun powerConfig outcome "" rfl rfl hreduce
  have hsecond := @step_afterFirst String id _ oneFile "s.jsonl" wholeRun (fromZero wholeRun)
    powerConfig outcome windows "" rfl (key_fromZero powerConfig rfl)
  have htransparent := h id (fun _ _ => headerOnly) oneFile
    [.reduce wholeRun powerConfig "", .reduce (fromZero wholeRun) powerConfig ""] _
    conforms_oneFile (by simp) (by rw [run_cons, hfirst, Option.bind_some, run_cons, hsecond]; rfl)
  have hanswer := htransparent.eq (List.mem_cons_of_mem _ List.mem_cons_self)
  have hsame := @begins_eq_of_answer String oneFile _ wholeRun (fromZero wholeRun) powerConfig
    outcome (stampMeta (fromZero wholeRun)) rfl rfl hreduce hanswer
  exact hlo (Option.some.inj (hbegins.symm.trans (hsame.trans hzero)))

end PowerForensics.RunCache
